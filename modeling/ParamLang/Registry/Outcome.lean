import ParamLang.Inclusion.Request
import ParamLang.Registry.Memory

/-! Outcomes of interpreting: the memory that is left, what happened on the way, and the fault that
ended it, if one did. A fault takes nothing back. -/
namespace ParamLang

/-- What interpreting does, as seen from outside. Parameters are given by the place of their
cell. -/
inductive Event
  | stored (place : Nat) (name value : Text)
  | cleared (place : Nat)
  | bound (name value : Text)
  | unbound (name : Text)
  | dumped (name value : Text)
  | requested (request : InclusionRequest)
  | entered (source : Text)
  | left
  deriving DecidableEq

structure Outcome where
  memory : Memory
  events : List Event
  fault : Option Fault
  deriving DecidableEq

namespace Outcome

def unchanged (m : Memory) : Outcome := ⟨m, [], none⟩

def failed (m : Memory) (fault : Fault) : Outcome := ⟨m, [], some fault⟩

def noted (events : List Event) (m : Memory) : Outcome := ⟨m, events, none⟩

/-- Goes on from the memory that is left, unless a fault has ended the run. -/
def andThen (o : Outcome) (next : Memory → Outcome) : Outcome :=
  match o.fault with
  | some _ => o
  | none =>
    let after := next o.memory
    ⟨after.memory, o.events ++ after.events, after.fault⟩

/-- Goes on with a result that does not touch the memory. -/
def attempt {α : Type} (m : Memory) (result : Except Fault α) (next : α → Outcome) : Outcome :=
  match result with
  | .ok a => next a
  | .error fault => failed m fault

/-- Acts on the elements of a list in order. -/
def each {α : Type} (act : α → Memory → Outcome) : List α → Memory → Outcome
  | [], m => unchanged m
  | a :: as, m => (act a m).andThen (each act as)

theorem andThen_unchanged (o : Outcome) : o.andThen unchanged = o := by
  obtain ⟨m, events, fault⟩ := o
  cases fault <;> simp [andThen, unchanged]

theorem unchanged_andThen (m : Memory) (next : Memory → Outcome) :
    (unchanged m).andThen next = next m := rfl

theorem andThen_assoc (o : Outcome) (f g : Memory → Outcome) :
    (o.andThen f).andThen g = o.andThen fun m => (f m).andThen g := by
  obtain ⟨m, events, fault⟩ := o
  cases fault with
  | some fault => rfl
  | none =>
    simp only [andThen]
    cases h : (f m).fault <;> simp [h]

theorem each_append {α : Type} (act : α → Memory → Outcome) (as bs : List α) (m : Memory) :
    each act (as ++ bs) m = (each act as m).andThen (each act bs) := by
  induction as generalizing m with
  | nil => rfl
  | cons a as ih =>
    simp only [List.cons_append, each, andThen_assoc]
    congr 1
    funext m
    exact ih m

/-- The lines that were dumped, in order. -/
def dumped (o : Outcome) : List (Text × Text) :=
  o.events.filterMap fun
    | .dumped name value => some (name, value)
    | _ => none

/-- The inclusions that were asked for, in order. -/
def requests (o : Outcome) : List InclusionRequest :=
  o.events.filterMap fun
    | .requested request => some request
    | _ => none

end Outcome

end ParamLang
