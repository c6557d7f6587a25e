import ParamLang.Proofs.Registry.Comparison
import ParamLang.Proofs.Registry.Copy
import ParamLang.Proofs.Registry.Failure

/-! Renewal. A reset takes away all that parses have left, save for the log, so a registry that has
been reset goes on like one that has only been set up in the same way. -/
namespace ParamLang

/-- Whether an operation uses a registry, and so does not set it up. -/
def Operation.isUse : Operation → Bool
  | .reset => true
  | .parse _ => true
  | _ => false

namespace Memory

/-- The memory without values, without variables and with nothing logged. -/
def renewed (m : Memory) : Memory := { m.reset with history := m.history.map fun _ => [] }

/-- The memory with entries in front of its log, if it keeps one. -/
def logAfter (earlier : List Entry) (m : Memory) : Memory :=
  { m with history := m.history.map fun log => earlier ++ log }

variable {m m' : Memory}

lemma renewed_eq_of_sameShape (h : m.SameShape m')
    (hlog : m'.history.isSome = m.history.isSome) : m'.renewed = m.renewed := by
  have hhistory : (m'.history.map fun _ => ([] : List Entry)) = m.history.map fun _ => [] := by
    cases hm : m.history <;> cases hm' : m'.history <;> simp_all
  simp only [renewed, reset, h.names, h.clear_eq, hhistory]

lemma checkNew_renewed (m : Memory) (name : Text) : m.renewed.checkNew name = m.checkNew name := rfl

lemma define_renewed (m : Memory) (name : Text) {cell : Cell} (hcell : cell.raw = none) :
    m.renewed.define name cell = (m.define name cell).map renewed := by
  simp only [define, checkNew_renewed]
  cases m.checkNew name with
  | error fault => rfl
  | ok _ => simp [renewed, reset, Except.map, Cell.clear_of_raw hcell]

lemma addAlias_renewed (m : Memory) (existing name : Text) :
    m.renewed.addAlias existing name = (m.addAlias existing name).map renewed := by
  simp only [addAlias, checkNew_renewed]
  change (m.place existing >>= _) = _
  cases m.place existing with
  | error fault => rfl
  | ok place => cases m.checkNew name <;> rfl

end Memory

lemma Event.Acts.isSome_history {s : Settings} {e : Event} {m m' : Memory} (h : e.Acts s m m') :
    m'.history.isSome = m.history.isSome := by
  cases h with
  | stored value hplace => simp [Memory.store]
  | _ => rfl

/-- A run leaves nothing behind that is not taken away again. -/
lemma Run.renewed_eq {s : Settings} {events : List Event} {m m' : Memory}
    (h : Run s m events m') : m'.renewed = m.renewed := by
  induction h with
  | nil m => rfl
  | cons first rest ih =>
    exact ih.trans (Memory.renewed_eq_of_sameShape first.sameShape first.isSome_history)

namespace Outcome

/-- The outcome with entries in front of the log that is left. -/
def logAfter (earlier : List Entry) (o : Outcome) : Outcome :=
  { o with memory := o.memory.logAfter earlier }

end Outcome

/-- Interpretations that differ in nothing but what was logged before them. -/
def Comparison.log (earlier : List Entry) : Comparison where
  Related m m' := m' = m.logAfter earlier
  Excused _ := False
  compares _ := true

lemma Comparison.log_kept (earlier : List Entry) (s : Settings) :
    (Comparison.log earlier).Kept s where
  bindings := by rintro m _ rfl; rfl
  isFlag := by rintro m _ rfl value; rfl
  positional := by rintro m _ rfl; rfl
  place := by rintro m _ rfl name; exact .inl rfl
  dump := by rintro m _ rfl operand; rfl
  store := by
    rintro m _ name place rfl hplace value
    simp [log, Memory.logAfter, Memory.store, Function.comp_def]
  clear := by rintro m _ name place rfl hplace; rfl
  bind := by rintro m _ rfl name value; rfl
  unbind := by rintro m _ rfl name; rfl

namespace Registry

variable {r : Registry} {operation : Operation}

def renewed (r : Registry) : Registry := { r with memory := r.memory.renewed }

def logAfter (earlier : List Entry) (r : Registry) : Registry :=
  { r with memory := r.memory.logAfter earlier }

/-- The operation, if it sets the registry up and does not fail. -/
def lastingOf (r : Registry) (operation : Operation) : List Operation :=
  match (r.perform operation).outcome.fault with
  | some _ => []
  | none => if operation.isUse then [] else [operation]

/-- What has set a registry up among operations in order: the changes of its settings, and the
definitions and aliases that have succeeded. -/
def lasting : Registry → List Operation → List Operation
  | _, [] => []
  | r, operation :: rest => r.lastingOf operation ++ (r.perform operation).registry.lasting rest

lemma renewed_of_use (h : operation.isUse = true) :
    (r.perform operation).registry.renewed = r.renewed := by
  cases operation with
  | reset =>
    exact congrArg (Registry.mk r.settings)
      (Memory.renewed_eq_of_sameShape (Memory.reset_sameShape _) rfl)
  | parse text => exact congrArg (Registry.mk r.settings) (r.parse_runs text).renewed_eq
  | _ => cases h

lemma changed_renewed {result result' : Except Fault Memory}
    (h : result' = result.map Memory.renewed) :
    (r.renewed.changed result').registry = (r.changed result).registry.renewed ∧
      (r.renewed.changed result').outcome.fault = (r.changed result).outcome.fault := by
  subst h
  cases result <;> exact ⟨rfl, rfl⟩

/-- A registry is set up in the same way whatever it has been used for. -/
lemma perform_renewed (h : operation.isUse = false) :
    (r.renewed.perform operation).registry = (r.perform operation).registry.renewed ∧
      (r.renewed.perform operation).outcome.fault = (r.perform operation).outcome.fault := by
  cases hdefinition : operation.definition? with
  | some defined =>
    rw [perform_of_definition? hdefinition, perform_of_definition? hdefinition]
    have hraw := Operation.raw_of_definition? hdefinition
    exact changed_renewed (r.memory.define_renewed defined.1 hraw)
  | none =>
    cases operation with
    | useMarks | limitDepth | useIncluder | useSink | keepHistory => exact ⟨rfl, rfl⟩
    | addAlias existing name => exact changed_renewed (r.memory.addAlias_renewed existing name)
    | define | defineWithDefault | defineRepeatable | defineFlag => cases hdefinition
    | reset | parse => cases h

/-- Either an operation lasts, or nothing of it does. -/
lemma lastingOf_cases (r : Registry) (operation : Operation) :
    (r.lastingOf operation = [operation] ∧ operation.isUse = false) ∨
      (r.lastingOf operation = [] ∧ (r.perform operation).registry.renewed = r.renewed) := by
  cases hfault : (r.perform operation).outcome.fault with
  | some fault =>
    refine .inr ⟨by simp [lastingOf, hfault], ?_⟩
    cases huse : operation.isUse with
    | true => exact renewed_of_use huse
    | false =>
      rw [perform_of_fault ?_ hfault]
      cases operation with
      | define | defineWithDefault | defineRepeatable | defineFlag => exact .inl rfl
      | addAlias existing name => exact .inr ⟨existing, name, rfl⟩
      | reset | parse => cases huse
      | _ => cases hfault
  | none =>
    cases huse : operation.isUse with
    | true => exact .inr ⟨by simp [lastingOf, hfault, huse], renewed_of_use huse⟩
    | false => exact .inl ⟨by simp [lastingOf, hfault, huse], rfl⟩

/-- What has set a registry up makes it as new. -/
lemma performAll_lasting (r : Registry) (operations : List Operation) :
    r.renewed.performAll (r.lasting operations) = (r.performAll operations).renewed := by
  induction operations generalizing r with
  | nil => rfl
  | cons operation operations ih =>
    have hrest := ih (r.perform operation).registry
    obtain ⟨hlasting, huse⟩ | ⟨hlasting, hsame⟩ := r.lastingOf_cases operation
    · rw [← (perform_renewed huse).1] at hrest
      rw [lasting, hlasting]
      exact hrest
    · rw [hsame] at hrest
      rw [lasting, hlasting]
      exact hrest

/-- What lasts succeeds again where it is all that is performed. -/
lemma lasting_lasting (r : Registry) (operations : List Operation) :
    r.renewed.lasting (r.lasting operations) = r.lasting operations := by
  induction operations generalizing r with
  | nil => rfl
  | cons operation operations ih =>
    have hrest := ih (r.perform operation).registry
    obtain ⟨hlasting, huse⟩ | ⟨hlasting, hsame⟩ := r.lastingOf_cases operation
    · obtain ⟨hregistry, hfault⟩ := perform_renewed (r := r) huse
      have hagain : r.renewed.lastingOf operation = [operation] := by
        rw [← hlasting, lastingOf, lastingOf, hfault]
      rw [lasting, hlasting, List.singleton_append, lasting, hagain, hregistry, hrest,
        List.singleton_append]
    · rw [hsame] at hrest
      rw [lasting, hlasting]
      exact hrest

lemma parse_logAfter (r : Registry) (earlier : List Entry) (text : Text) :
    (r.logAfter earlier).parse text = (r.parse text).logAfter earlier := by
  cases parse_alike (Comparison.log_kept earlier r.settings) rfl text with
  | excused fault hfault h => exact h.elim
  | alike memory fault events =>
    simp only [Comparison.log, List.filter_true] at events
    exact congr (congrArg₂ Outcome.mk memory events) fault

lemma performAll_logAfter (r : Registry) (earlier : List Entry) (texts : List Text) :
    (r.logAfter earlier).performAll (texts.map .parse) =
      (r.performAll (texts.map .parse)).logAfter earlier := by
  induction texts generalizing r with
  | nil => rfl
  | cons text texts ih =>
    have hfirst : ((r.logAfter earlier).perform (.parse text)).registry =
        (r.perform (.parse text)).registry.logAfter earlier := by
      simp only [perform, parse_logAfter]
      rfl
    simp only [List.map_cons, performAll, List.foldl_cons, hfirst] at ih ⊢
    exact ih _

/-- A reset leaves the log and takes away all else that does not last. -/
lemma perform_reset (r : Registry) :
    (r.perform .reset).registry = r.renewed.logAfter r.history := by
  have hhistory : r.memory.history =
      (r.memory.history.map fun _ => ([] : List Entry)).map fun log => r.history ++ log := by
    cases h : r.memory.history <;> simp [history, h]
  have hmemory : r.memory.reset = r.memory.renewed.logAfter r.history := by
    simp only [Memory.renewed, Memory.logAfter, ← hhistory]
    rfl
  exact congrArg (Registry.mk r.settings) hmemory

/-- A reset gives back a fresh registry, one that has only been set up in the same way. Every parse
that follows has the same outcome as there, save for the log, in which the earlier entries stand in
front. -/
theorem reset_renews (operations : List Operation) (texts : List Text) (text : Text) :
    let used := new.performAll operations
    let fresh := new.performAll (new.lasting operations)
    let later := used.performAll (.reset :: texts.map .parse)
    let afresh := fresh.performAll (texts.map .parse)
    new.lasting (new.lasting operations) = new.lasting operations ∧
      later.settings = afresh.settings ∧
      later.parse text = (afresh.parse text).logAfter used.history := by
  intro used fresh later afresh
  have hfresh : fresh = used.renewed := performAll_lasting new operations
  have hlater : later = afresh.logAfter used.history := by
    have hreset : later = (used.perform .reset).registry.performAll (texts.map .parse) := rfl
    rw [hreset, perform_reset, performAll_logAfter, ← hfresh]
  refine ⟨lasting_lasting new operations, ?_, ?_⟩
  · rw [hlater]
    rfl
  · rw [hlater, parse_logAfter]

end Registry

end ParamLang
