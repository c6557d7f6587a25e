import ParamLang.Registry.Basic
import ParamLang.Proofs.Result

/-! Runs of events. Whatever is interpreted, the memory moves by the events that are noted and by
nothing else, each of them under a condition of its own. What one event keeps, every parse keeps. -/
namespace ParamLang

/-- When an event may happen, and what it does to the memory. -/
inductive Event.Acts (s : Settings) : Event → Memory → Memory → Prop
  | stored {m : Memory} {place : Nat} {name : Text} (value : Text)
      (hplace : m.names.find? name = some place) :
      Acts s (.stored place name value) m (m.store s.marks place name value)
  | cleared {m : Memory} {place : Nat} {name : Text} (hplace : m.names.find? name = some place) :
      Acts s (.cleared place) m (m.clear place)
  | bound {m : Memory} {name source : Text} {resolved : Resolved} (hname : name ≠ [])
      (hnew : m.bindings.find? name = none) (hresolved : s.resolve m source = .ok resolved) :
      Acts s (.bound name resolved.text) m (m.bind name resolved.text)
  | unbound (m : Memory) (name : Text) : Acts s (.unbound name) m (m.unbind name)
  | dumped (m : Memory) (name value : Text) : Acts s (.dumped name value) m m
  | requested (m : Memory) (request : InclusionRequest) : Acts s (.requested request) m m
  | entered (m : Memory) (source : Text) : Acts s (.entered source) m m
  | left (m : Memory) : Acts s .left m m

/-- A run of events from one memory to another. -/
inductive Run (s : Settings) : Memory → List Event → Memory → Prop
  | nil (m : Memory) : Run s m [] m
  | cons {m m' m'' : Memory} {e : Event} {events : List Event} (first : e.Acts s m m')
      (rest : Run s m' events m'') : Run s m (e :: events) m''

variable {s : Settings} {m m' m'' : Memory}

lemma Run.append {events events' : List Event} (h : Run s m events m')
    (h' : Run s m' events' m'') : Run s m (events ++ events') m'' := by
  induction h with
  | nil m => exact h'
  | cons first rest ih => exact .cons first (ih h')

namespace Outcome

/-- An outcome that is reached by the events it notes. -/
def RunsFrom (s : Settings) (m : Memory) (o : Outcome) : Prop := Run s m o.events o.memory

variable {α : Type} {o : Outcome} {next : Memory → Outcome}

lemma runsFrom_unchanged (s : Settings) (m : Memory) : (unchanged m).RunsFrom s m := .nil m

lemma runsFrom_failed (s : Settings) (m : Memory) (fault : Fault) :
    (failed m fault).RunsFrom s m := .nil m

lemma runsFrom_noted {e : Event} (h : e.Acts s m m') : (noted [e] m').RunsFrom s m :=
  .cons h (.nil m')

lemma mem_andThen_events {e : Event} :
    e ∈ (o.andThen next).events ↔ e ∈ o.events ∨ o.fault = none ∧ e ∈ (next o.memory).events := by
  cases hfault : o.fault <;> simp [andThen, hfault]

lemma RunsFrom.andThen (h : o.RunsFrom s m) (hnext : ∀ m, (next m).RunsFrom s m) :
    (o.andThen next).RunsFrom s m := by
  obtain ⟨memory, events, fault⟩ := o
  cases fault with
  | some fault => exact h
  | none => exact Run.append h (hnext memory)

lemma runsFrom_attempt {result : Except Fault α} {next : α → Outcome}
    (hnext : ∀ a, result = .ok a → (next a).RunsFrom s m) :
    (attempt m result next).RunsFrom s m := by
  cases result with
  | ok a => exact hnext a rfl
  | error fault => exact runsFrom_failed s m fault

lemma runsFrom_each {act : α → Memory → Outcome} (hact : ∀ a m, (act a m).RunsFrom s m)
    (as : List α) (m : Memory) : (each act as m).RunsFrom s m := by
  induction as generalizing m with
  | nil => exact runsFrom_unchanged s m
  | cons a as ih => exact (hact a m).andThen ih

end Outcome

lemma Memory.place_eq_ok_iff {name : Text} {place : Nat} :
    m.place name = .ok place ↔ m.names.find? name = some place := by
  simp only [Memory.place]
  cases m.names.find? name <;> simp

namespace Interpret

open Outcome

variable {deeper : Option Deeper} {run : Deeper}

/-- What runs entries one level deeper moves the memory by events too. -/
def RunsDeeper (s : Settings) (deeper : Option Deeper) : Prop :=
  ∀ run ∈ deeper, ∀ chain entries m, (run chain entries m).RunsFrom s m

lemma fragment_runs (h : RunsDeeper s deeper) (chain : List Text) (text : Text) (m : Memory) :
    (fragment s deeper chain text m).RunsFrom s m := by
  cases deeper with
  | none => exact runsFrom_failed s m _
  | some run => exact runsFrom_attempt fun entries _ => h run rfl chain entries m

lemma store_runs (s : Settings) (name value : Text) (m : Memory) :
    (store s name value m).RunsFrom s m :=
  runsFrom_attempt fun _ hplace => runsFrom_noted (.stored value (Memory.place_eq_ok_iff.mp hplace))

lemma bindVariable_runs (s : Settings) (name value : Text) (m : Memory) :
    (bindVariable s name value m).RunsFrom s m := by
  unfold bindVariable
  split
  · exact runsFrom_failed s m _
  · rename_i hname
    split
    · exact runsFrom_unchanged s m
    · rename_i hnew
      have hnew : m.bindings.find? name = none := by simpa [Table.contains] using hnew
      exact runsFrom_attempt fun _ hresolved => runsFrom_noted (.bound hname hnew hresolved)

lemma isolated_runs (h : RunsDeeper s deeper) (chain : List Text) (value : Text) (m : Memory) :
    (isolated s deeper chain value m).RunsFrom s m := by
  refine runsFrom_attempt fun resolved _ => ?_
  split
  · exact fragment_runs h chain resolved.text m
  · split
    · exact store_runs s value Cell.onText m
    · split
      · exact store_runs s [] value m
      · exact runsFrom_failed s m _

lemma condition_runs (h : RunsDeeper s deeper) (chain : List Text) (operand : Text) (m : Memory) :
    (condition s deeper chain operand m).RunsFrom s m := by
  refine runsFrom_attempt fun operands _ => runsFrom_attempt fun test _ => ?_
  split
  · exact fragment_runs h chain operands.thenBranch m
  · split
    · exact fragment_runs h chain _ m
    · exact runsFrom_unchanged s m

lemma splice_runs (h : ∀ chain entries m, (run chain entries m).RunsFrom s m) (chain : List Text)
    (included : Included) (m : Memory) : (splice run chain included m).RunsFrom s m :=
  ((runsFrom_noted (.entered m included.source)).andThen (h _ included.entries)).andThen
    fun m => runsFrom_noted (.left m)

lemma inclusion_runs (h : RunsDeeper s deeper) (chain : List Text) (operand : Text) (m : Memory) :
    (inclusion s deeper chain operand m).RunsFrom s m := by
  cases deeper with
  | none => exact runsFrom_failed s m _
  | some run =>
    refine runsFrom_attempt fun operands _ => runsFrom_attempt fun names _ => ?_
    cases s.includer with
    | none => exact runsFrom_failed s m _
    | some includer =>
      refine (runsFrom_noted (.requested m _)).andThen fun m => ?_
      split
      · exact runsFrom_failed s m _
      · exact splice_runs (h run rfl) chain _ m

lemma resetName_runs (s : Settings) (name : Text) (m : Memory) :
    (resetName s name m).RunsFrom s m := by
  unfold resetName
  split
  · exact runsFrom_noted (.unbound m _)
  · exact runsFrom_attempt fun _ hplace =>
      runsFrom_noted (.cleared (Memory.place_eq_ok_iff.mp hplace))

lemma resetNames_runs (s : Settings) (operand : Text) (m : Memory) :
    (resetNames s operand m).RunsFrom s m :=
  runsFrom_attempt fun names _ => runsFrom_each (resetName_runs s) names m

lemma dump_runs (s : Settings) (operand : Text) (m : Memory) :
    (dump s operand m).RunsFrom s m := by
  unfold dump
  induction Dump.lines s m operand with
  | nil => exact runsFrom_unchanged s m
  | cons line lines ih => exact .cons (.dumped m line.1 line.2) ih

lemma directive_runs (h : RunsDeeper s deeper) (chain : List Text) (operand : Text) (m : Memory)
    (d : Directive) : (directive s deeper chain operand m d).RunsFrom s m := by
  cases d with
  | condition => exact condition_runs h chain operand m
  | inclusion => exact runsFrom_attempt fun o _ => inclusion_runs h chain o.text m
  | reset => exact runsFrom_attempt fun o _ => resetNames_runs s o.text m
  | dump => exact dump_runs s operand m

lemma pair_runs (h : RunsDeeper s deeper) (chain : List Text) (name value : Text) (m : Memory) :
    (pair s deeper chain name value m).RunsFrom s m := by
  refine runsFrom_attempt fun resolved _ => ?_
  split
  · exact bindVariable_runs s _ value m
  · split
    · exact directive_runs h chain value m _
    · exact runsFrom_attempt fun v _ => store_runs s resolved.text v.text m

lemma entry_runs (h : RunsDeeper s deeper) (chain : List Text) (e : Entry) (m : Memory) :
    (entry s deeper chain e m).RunsFrom s m := by
  cases e with
  | value value => exact isolated_runs h chain value m
  | pair name value => exact pair_runs h chain name value m

lemma entries_runs (s : Settings) (levels : Nat) (chain : List Text) (es : List Entry)
    (m : Memory) : (entries s levels chain es m).RunsFrom s m := by
  induction levels generalizing chain es m with
  | zero => exact runsFrom_each (entry_runs (by simp [RunsDeeper]) chain) es m
  | succ levels ih =>
    have hdeeper : RunsDeeper s (some (entries s levels)) := by
      rintro run ⟨⟩
      exact ih
    exact runsFrom_each (entry_runs hdeeper chain) es m

end Interpret

/-- A parse, with whatever nesting and however it ends, is a run of its events. -/
lemma Registry.parse_runs (r : Registry) (text : Text) :
    (r.parse text).RunsFrom r.settings r.memory :=
  Outcome.runsFrom_attempt fun es _ => Interpret.entries_runs r.settings _ [] es r.memory

end ParamLang
