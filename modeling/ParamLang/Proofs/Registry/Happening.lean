import ParamLang.Registry.Operation
import ParamLang.Proofs.Registry.Run

/-! What happens to the storage of a registry over any number of operations: the events of every
parse, and the resets of all values at once. -/
namespace ParamLang

inductive Happening
  | event (e : Event)
  | reset

namespace Registry

def happenedIn (r : Registry) : Operation → List Happening
  | .reset => [.reset]
  | operation => (r.perform operation).outcome.events.map .event

/-- What happens in operations in order, each one performed on what the ones before it leave. -/
def happenings : Registry → List Operation → List Happening
  | _, [] => []
  | r, operation :: rest =>
    r.happenedIn operation ++ (r.perform operation).registry.happenings rest

/-- A fragment that cannot be scanned is not interpreted at all. -/
lemma parse_of_misread {r : Registry} {text : Text} {fault : Fault}
    (h : scan r.settings.marks text = .error fault) : r.parse text = .failed r.memory fault := by
  rw [parse, h, Outcome.attempt]

lemma parse_of_scan {r : Registry} {text : Text} {es : List Entry}
    (h : scan r.settings.marks text = .ok es) :
    r.parse text = Interpret.entries r.settings r.settings.maxDepth [] es r.memory := by
  rw [parse, h, Outcome.attempt]

@[simp] lemma changed_ok (r : Registry) (m : Memory) :
    r.changed (.ok m) = ⟨{ r with memory := m }, .unchanged m⟩ := rfl

/-- A change that fails leaves the registry as it is. -/
@[simp] lemma changed_error (r : Registry) (fault : Fault) :
    r.changed (.error fault) = ⟨r, .failed r.memory fault⟩ := rfl

lemma changed_events (r : Registry) (result : Except Fault Memory) :
    (r.changed result).outcome.events = [] := by
  cases result <;> rfl

lemma perform_marks {r : Registry} {operation : Operation}
    (hmarks : ∀ marks, operation = .useMarks marks → marks = r.settings.marks) :
    (r.perform operation).registry.settings.marks = r.settings.marks := by
  cases operation with
  | useMarks marks => exact hmarks marks rfl
  | _ => rfl

end Registry

namespace Memory

variable {m m' : Memory} {name : Text} {cell : Cell}

lemma checkNew_eq_ok_iff : m.checkNew name = .ok () ↔
    Directive.find? name = none ∧ m.names.find? name = none := by
  cases hd : Directive.find? name with
  | some d => simp [checkNew, hd]
  | none =>
    cases hn : m.names.find? name with
    | some place => simp [checkNew, Table.contains, hd, hn]
    | none => simp [checkNew, Table.contains, hd, hn]

/-- A definition that succeeds adds one cell under one new name. -/
lemma define_eq_ok_iff : m.define name cell = .ok m' ↔
    (Directive.find? name = none ∧ m.names.find? name = none) ∧
      m' = { m with cells := m.cells ++ [cell], names := m.names.put name m.cells.length } := by
  simp only [define, bind_eq_ok_iff, ← checkNew_eq_ok_iff, Except.ok.injEq, eq_comm (a := m')]
  exact ⟨fun ⟨_, hnew, hm⟩ => ⟨hnew, hm⟩, fun ⟨hnew, hm⟩ => ⟨(), hnew, hm⟩⟩

/-- An alias that succeeds adds one new name for a place that has one. -/
lemma addAlias_eq_ok_iff {existing : Text} : m.addAlias existing name = .ok m' ↔
    ∃ place, m.names.find? existing = some place ∧
      (Directive.find? name = none ∧ m.names.find? name = none) ∧
      m' = { m with names := m.names.put name place } := by
  simp only [addAlias, bind_eq_ok_iff, place_eq_ok_iff, ← checkNew_eq_ok_iff, Except.ok.injEq,
    eq_comm (a := m')]
  exact exists_congr fun place => and_congr_right fun _ =>
    ⟨fun ⟨_, hnew, hm⟩ => ⟨hnew, hm⟩, fun ⟨hnew, hm⟩ => ⟨(), hnew, hm⟩⟩

end Memory

end ParamLang
