import ParamLang.Proofs.Registry.Account
import ParamLang.Proofs.Registry.Moment

/-! Assignments: pairs whose names resolve to those of parameters and whose values resolve. None of
them changes what another one comes to, so a list of them stores its values one after the other. -/
namespace ParamLang

/-- A value for the cell at a place, and the name that it is logged under. -/
structure Assignment where
  place : Nat
  name : Text
  value : Text

namespace Assignment

def event (a : Assignment) : Event := .stored a.place a.name a.value

def logged (a : Assignment) : Entry := .pair a.name a.value

/-- The values that go to the cell at a place, in order. -/
def valuesAt (place : Nat) (as : List Assignment) : List Text :=
  (as.filter fun a => a.place == place).map value

lemma valuesAt_cons (place : Nat) (a : Assignment) (as : List Assignment) :
    valuesAt place (a :: as) = (if a.place = place then [a.value] else []) ++ valuesAt place as := by
  by_cases h : a.place = place <;> simp [valuesAt, h]

end Assignment

namespace Memory

variable {marks : Marks}

def storeAll (marks : Marks) (as : List Assignment) (m : Memory) : Memory :=
  as.foldl (fun m a => m.store marks a.place a.name a.value) m

lemma storeAll_cons (a : Assignment) (as : List Assignment) (m : Memory) :
    m.storeAll marks (a :: as) = (m.store marks a.place a.name a.value).storeAll marks as := rfl

@[simp] lemma storeAll_names (as : List Assignment) (m : Memory) :
    (m.storeAll marks as).names = m.names := by
  induction as generalizing m with
  | nil => rfl
  | cons a as ih => rw [storeAll_cons, ih, store]

@[simp] lemma storeAll_bindings (as : List Assignment) (m : Memory) :
    (m.storeAll marks as).bindings = m.bindings := by
  induction as generalizing m with
  | nil => rfl
  | cons a as ih => rw [storeAll_cons, ih, store]

/-- A cell is assigned the values that go to it. -/
lemma storeAll_cells (as : List Assignment) (m : Memory) (place : Nat) :
    (m.storeAll marks as).cells[place]? =
      (m.cells[place]?).map (Cell.assignAll marks (Assignment.valuesAt place as)) := by
  induction as generalizing m with
  | nil => cases hcell : m.cells[place]? <;> simp [storeAll, Assignment.valuesAt, hcell]
  | cons a as ih =>
    rw [storeAll_cons, ih, Assignment.valuesAt_cons]
    by_cases hplace : a.place = place
    · cases hcell : m.cells[place]? <;> simp [store, hplace, hcell, Cell.assignAll_cons]
    · simp [store, hplace]

lemma storeAll_history (as : List Assignment) (m : Memory) :
    (m.storeAll marks as).history = m.history.map (· ++ as.map Assignment.logged) := by
  induction as generalizing m with
  | nil => cases hlog : m.history <;> simp [storeAll, hlog]
  | cons a as ih =>
    rw [storeAll_cons, ih]
    cases hlog : m.history <;> simp [store, hlog, Assignment.logged]

end Memory

namespace Interpret

open Outcome

variable {s : Settings} {deeper : Option Deeper} {chain : List Text} {m : Memory}

/-- What a pair assigns, if its name resolves to that of a parameter and its value resolves. -/
def assignment? (s : Settings) (m : Memory) : Entry → Option Assignment
  | .value _ => none
  | .pair name value =>
    match s.resolve m name, s.resolve m value with
    | .ok n, .ok v =>
      match Role.ofName s.marks n.text with
      | .assignment target => (m.names.find? target).map fun place => ⟨place, target, v.text⟩
      | _ => none
    | _, _ => none

lemma assignment?_eq_some_iff {name value : Text} {a : Assignment} :
    assignment? s m (.pair name value) = some a ↔
      HasRole s m name (.assignment a.name) ∧ m.names.find? a.name = some a.place ∧
        ∃ v, s.resolve m value = .ok v ∧ v.text = a.value := by
  constructor
  · intro h
    simp only [assignment?] at h
    split at h
    · rename_i n v hn hv
      split at h
      · rename_i target hrole
        obtain ⟨place, hplace, rfl⟩ := Option.map_eq_some_iff.mp h
        exact ⟨⟨n, hn, hrole⟩, hplace, v, hv, rfl⟩
      · cases h
    · cases h
  · rintro ⟨⟨n, hn, hrole⟩, hplace, v, hv, hvalue⟩
    simp [assignment?, hn, hv, hrole, hplace, hvalue]

/-- What entries assign does not hang on what is in the cells. -/
lemma assignment?_store (place : Nat) (name value : Text) :
    assignment? s (m.store s.marks place name value) = assignment? s m := by
  funext e
  cases e <;> rfl

lemma entry_of_assignment? {e : Entry} {a : Assignment} (h : assignment? s m e = some a) :
    entry s deeper chain e m = noted [a.event] (m.store s.marks a.place a.name a.value) := by
  cases e with
  | value value => cases h
  | pair name value =>
    obtain ⟨hrole, hplace, v, hvalue, htext⟩ := assignment?_eq_some_iff.mp h
    rw [entry_of_stores (.assignment hrole hvalue), htext, store,
      Memory.place_eq_ok_iff.mpr hplace, attempt, Assignment.event]

/-- Assignments are stored one after the other, each as it comes to in the memory before them. -/
lemma each_assignments {es : List Entry} (hes : ∀ e ∈ es, (assignment? s m e).isSome = true) :
    each (entry s deeper chain) es m =
      noted ((es.filterMap (assignment? s m)).map Assignment.event)
        (m.storeAll s.marks (es.filterMap (assignment? s m))) := by
  induction es generalizing m with
  | nil => rfl
  | cons e es ih =>
    obtain ⟨a, ha⟩ := Option.isSome_iff_exists.mp (hes e (by simp))
    have hrest := ih (m := m.store s.marks a.place a.name a.value) fun e he => by
      rw [assignment?_store]
      exact hes e (List.mem_cons_of_mem _ he)
    rw [each, entry_of_assignment? ha]
    simp only [andThen, noted, hrest, assignment?_store, List.filterMap_cons_some ha]
    rfl

end Interpret

end ParamLang
