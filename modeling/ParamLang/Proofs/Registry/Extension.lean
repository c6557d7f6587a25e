import ParamLang.Proofs.Registry.Comparison
import ParamLang.Proofs.Registry.Limit
import ParamLang.Proofs.Registry.Structure

/-! Extension. Whatever is interpreted without asking for a parameter that is missing is interpreted
alike when the parameter is there, unless it is a flag, whose name is a value of its own. -/
namespace ParamLang

namespace Memory

/-- The memory with one more cell, under one more name. -/
def extend (name : Text) (cell : Cell) (m : Memory) : Memory :=
  { m with cells := m.cells ++ [cell], names := m.names.put name m.cells.length }

variable {m : Memory} {name other : Text} {cell : Cell}

lemma place_extend_of_ne (hne : other ≠ name) : (m.extend name cell).place other = m.place other := by
  simp [place, extend, Table.find?_put, hne]

lemma cell?_extend_self (m : Memory) (name : Text) (cell : Cell) :
    (m.extend name cell).cell? name = some cell := by
  simp [cell?, extend, Table.find?_put]

lemma modify_append {cells : List Cell} {place : Nat} (hplace : place < cells.length)
    (act : Cell → Cell) (cell : Cell) :
    (cells ++ [cell]).modify place act = cells.modify place act ++ [cell] := by
  apply List.ext_getElem?
  intro p
  by_cases hp : p < cells.length
  · have hp' : p < (cells.modify place act).length := by simpa using hp
    rw [List.getElem?_append_left hp', List.getElem?_modify, List.getElem?_modify,
      List.getElem?_append_left hp]
  · have hne : place ≠ p := by omega
    simp [hne, List.getElem?_append, hp]

end Memory

/-- The name is nobody's, and all other names have cells. -/
structure Memory.Lacks (name : Text) (m : Memory) : Prop where
  missing : m.names.find? name = none
  placed : ∀ other place, m.names.find? other = some place → place < m.cells.length

namespace Memory.Lacks

variable {m m' : Memory} {name other : Text}

/-- The names that are there keep their cells. -/
lemma cell?_extend_of_ne (h : m.Lacks name) (hne : other ≠ name) (cell : Cell) :
    (m.extend name cell).cell? other = m.cell? other := by
  have hfind : (m.extend name cell).names.find? other = m.names.find? other := by
    simp [extend, Table.find?_put, hne]
  rw [cell?, cell?, hfind]
  cases hother : m.names.find? other with
  | none => rfl
  | some place => exact List.getElem?_append_left (h.placed other place hother)

lemma of_sameShape (h : m.Lacks name) (hshape : m.SameShape m') : m'.Lacks name where
  missing := hshape.names ▸ h.missing
  placed other place hother := hshape.length_eq ▸ h.placed other place (hshape.names ▸ hother)

end Memory.Lacks

/-- Interpretations without a parameter and with it. The first one may ask for the parameter and
fail, and dumps may show it. -/
def Comparison.extension (name : Text) (cell : Cell) : Comparison where
  Related m m' := m.Lacks name ∧ m' = m.extend name cell
  Excused fault := fault = .undefinedParameter name
  compares e := !e.isDump

/-- A change of one cell that is there comes to the same with the new cell behind it. -/
lemma Comparison.extension_modify {name other : Text} {cell : Cell} {m m' : Memory} {place : Nat}
    (h : (extension name cell).Related m m') (hplace : m.names.find? other = some place)
    (act : Cell → Cell) (hact : ∀ c, (act c).kind = c.kind)
    (note : Option (List Entry) → Option (List Entry)) : (extension name cell).Related
      { m with cells := m.cells.modify place act, history := note m.history }
      { m' with cells := m'.cells.modify place act, history := note m'.history } := by
  obtain ⟨hlacks, rfl⟩ := h
  refine ⟨hlacks.of_sameShape ⟨rfl, Memory.map_kind_modify _ _ hact⟩, ?_⟩
  simp [Memory.extend, Memory.modify_append (hlacks.placed other place hplace)]

lemma Comparison.extension_kept {name : Text} {cell : Cell} (hname : name ≠ [])
    (hflag : cell.isFlag = false) (s : Settings) : (extension name cell).Kept s where
  bindings := by
    rintro m _ ⟨-, rfl⟩
    rfl
  isFlag := by
    rintro m _ ⟨hlacks, rfl⟩ value
    by_cases hvalue : value = name
    · -- missing or there, the name is not that of a flag
      subst hvalue
      have hnone : m.cell? value = none := by simp [Memory.cell?, hlacks.missing]
      simp [Interpret.isFlag, Memory.cell?_extend_self, hflag, hnone]
    · simp [Interpret.isFlag, hlacks.cell?_extend_of_ne hvalue]
  positional := by
    rintro m _ ⟨-, rfl⟩
    simp [Memory.extend, Table.contains, Table.find?_put, hname.symm]
  place := by
    rintro m _ ⟨hlacks, rfl⟩ other
    by_cases hother : other = name
    · subst hother
      exact .inr ⟨_, by simp [Memory.place, hlacks.missing], rfl⟩
    · exact .inl (Memory.place_extend_of_ne hother)
  dump {m m'} _ operand :=
    (Interpret.dump_undumped s operand m').trans (Interpret.dump_undumped s operand m).symm
  store h hplace value :=
    extension_modify h hplace (Cell.assign s.marks value) (fun _ => rfl) (Option.map _)
  clear h hplace := extension_modify h hplace Cell.clear (fun _ => rfl) id
  bind := by
    rintro m _ ⟨hlacks, rfl⟩ v value
    exact ⟨hlacks.of_sameShape ⟨rfl, rfl⟩, rfl⟩
  unbind := by
    rintro m _ ⟨hlacks, rfl⟩ v
    exact ⟨hlacks.of_sameShape ⟨rfl, rfl⟩, rfl⟩

namespace Registry

variable {r : Registry} {operation : Operation} {name text : Text} {cell : Cell}

/-- A definition under a name that is neither reserved nor taken succeeds. -/
lemma perform_of_new (hdefinition : operation.definition? = some (name, cell))
    (hreserved : Directive.find? name = none) (hnew : r.memory.names.find? name = none) :
    (r.perform operation).registry = ⟨r.settings, r.memory.extend name cell⟩ ∧
      (r.perform operation).outcome.fault = none := by
  have hdefine : r.memory.define name cell = .ok (r.memory.extend name cell) :=
    Memory.define_eq_ok_iff.mpr ⟨⟨hreserved, hnew⟩, rfl⟩
  rw [perform_of_definition? hdefinition, hdefine]
  exact ⟨rfl, rfl⟩

/-- A parse in a registry with one more parameter, if it does not end at its absence. -/
lemma parse_extend (hlacks : r.memory.Lacks name) (hname : name ≠ []) (hflag : cell.isFlag = false)
    (hended : (r.parse text).fault ≠ some (.undefinedParameter name)) :
    let before := r.parse text
    let after := Registry.parse ⟨r.settings, r.memory.extend name cell⟩ text
    before.memory.Lacks name ∧ after.memory = before.memory.extend name cell ∧
      after.fault = before.fault ∧ after.undumped = before.undumped := by
  intro before after
  have halike := parse_alike (Comparison.extension_kept hname hflag r.settings) ⟨hlacks, rfl⟩ text
  cases halike with
  | excused fault hfault h =>
    obtain rfl := h
    exact absurd hfault hended
  | alike memory fault events => exact ⟨memory.1, memory.2, fault, events⟩

/-- A definition is conservative. After a parameter that is not a flag has been defined, a parse
that does not end at its absence ends as it did before. It leaves all other parameters, the
variables and the log as before, and does not give the new parameter a value. -/
theorem definition_conservative (operations : List Operation)
    (hdefinition : operation.definition? = some (name, cell)) (hflag : cell.isFlag = false)
    (hname : name ≠ []) (hreserved : Directive.find? name = none)
    (hnew : (new.performAll operations).isDefined name = false)
    (hended : ((new.performAll operations).parse text).fault ≠ some (.undefinedParameter name)) :
    let r := new.performAll operations
    let defined := r.perform operation
    let before := r.parse text
    let after := defined.registry.parse text
    (defined.outcome.fault = none ∧ after.fault = before.fault ∧
        after.undumped = before.undumped) ∧
      (∀ other, other ≠ name → after.memory.cell? other = before.memory.cell? other) ∧
      after.memory.bindings = before.memory.bindings ∧
      after.memory.history = before.memory.history ∧
      after.memory.cell? name = some cell ∧ cell.raw = none := by
  intro r defined before after
  have hmissing : r.memory.names.find? name = none := by
    simpa [isDefined, Table.contains] using hnew
  have hsound : r.memory.Sound := (performAll_new_grows operations).sound
  obtain ⟨hregistry, hfault⟩ := perform_of_new hdefinition hreserved hmissing
  obtain ⟨hlacks, hmemory, hsame, hundumped⟩ :=
    parse_extend ⟨hmissing, hsound.placed⟩ hname hflag hended
  rw [← hregistry] at hmemory hsame hundumped
  refine ⟨⟨hfault, hsame, hundumped⟩, fun other hne => ?_, ?_, ?_, ?_, ?_⟩
  · rw [hmemory]
    exact hlacks.cell?_extend_of_ne hne cell
  · rw [hmemory]
    rfl
  · rw [hmemory]
    rfl
  · rw [hmemory]
    exact Memory.cell?_extend_self before.memory name cell
  · exact Operation.raw_of_definition? hdefinition

/-- The new name as a value of the empty parameter and of a variable, in a branch, and in a dump. -/
theorem definition_conservative_repeatable :
    let operations : List Operation := [.defineRepeatable [], .defineFlag ['v'], .keepHistory]
    let text : Text := ['n', ' ', '$', 'a', '=', 'n', ' ', 'd', 'u', 'm', 'p', '=', 'n', ' ', 'c',
      'o', 'n', 'd', 'i', 't', 'i', 'o', 'n', '=', '[', 'i', 'f', '=', 'n', ' ', 't', 'h', 'e', 'n',
      '=', '[', '$', '$', 'a', ' ', 'v', ']', ']']
    let r := new.performAll operations
    let defined := r.perform (.defineRepeatable ['n'])
    let before := r.parse text
    let after := defined.registry.parse text
    before.fault = none ∧ (defined.outcome.fault = none ∧ after.fault = before.fault ∧
        after.undumped = before.undumped) ∧
      (∀ other, other ≠ ['n'] → after.memory.cell? other = before.memory.cell? other) ∧
      after.memory.bindings = before.memory.bindings ∧
      after.memory.history = before.memory.history ∧
      after.memory.cell? ['n'] = some .accumulating ∧ Cell.accumulating.raw = none := by
  intro operations text r defined before after
  have hfault : (r.parse text).fault = none := by cbv
  have hended : before.fault ≠ some (.undefinedParameter ['n']) := by
    rw [hfault]
    simp
  exact ⟨hfault, definition_conservative operations rfl rfl (by decide) (by decide) (by cbv) hended⟩

end Registry

end ParamLang
