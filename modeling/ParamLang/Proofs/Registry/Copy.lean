import ParamLang.Proofs.Registry.Structure

/-! Copies of a registry without its values: the same parameters under the same names. The
definitions and aliases among some operations make such a copy of what all of them make. -/
namespace ParamLang

/-- Definitions and aliases. -/
def Operation.isNaming : Operation → Bool
  | .addAlias _ _ => true
  | operation => operation.definition?.isSome

namespace Registry

/-- The same parameters under the same names, without values and without variables. -/
structure FreshCopy (r fresh : Registry) : Prop where
  marks : fresh.settings.marks = r.settings.marks
  unbound : fresh.memory.bindings = ∅
  cells : ∀ name, fresh.memory.cell? name = (r.memory.cell? name).map Cell.clear
  shared : ∀ name other,
    fresh.memory.names.find? name = fresh.memory.names.find? other ↔
      r.memory.names.find? name = r.memory.names.find? other

/-- A name has its own place in the copy, with the cell that it has in the original, but clear. -/
lemma FreshCopy.exists_place {r fresh : Registry} {name : Text} {place : Nat}
    (h : r.FreshCopy fresh) (hsound : r.memory.Sound)
    (hplace : r.memory.names.find? name = some place) : ∃ place' c,
      r.memory.cells[place]? = some c ∧ fresh.memory.names.find? name = some place' ∧
        fresh.memory.cells[place']? = some c.clear := by
  have hlt := hsound.placed name place hplace
  have hcopy := h.cells name
  simp only [Memory.cell?, hplace, Option.bind_some, List.getElem?_eq_getElem hlt,
    Option.map_some] at hcopy
  obtain ⟨place', hname, hcell⟩ := Option.bind_eq_some_iff.mp hcopy
  exact ⟨place', _, List.getElem?_eq_getElem hlt, hname, hcell⟩

/-- The same places for the same names, and every cell clear. -/
structure ClearCopy (r copy : Registry) : Prop where
  marks : copy.settings.marks = r.settings.marks
  unbound : copy.memory.bindings = ∅
  names : copy.memory.names = r.memory.names
  cells : copy.memory.cells = r.memory.cells.map Cell.clear

namespace ClearCopy

variable {r copy : Registry} {operation : Operation}

lemma freshCopy (h : r.ClearCopy copy) : r.FreshCopy copy where
  marks := h.marks
  unbound := h.unbound
  cells name := by
    simp only [Memory.cell?, h.names, h.cells, List.getElem?_map]
    cases r.memory.names.find? name <;> rfl
  shared name other := by rw [h.names]

lemma of_sameShape {r' : Registry} (h : r.ClearCopy copy)
    (hmarks : r'.settings.marks = r.settings.marks) (hshape : r.memory.SameShape r'.memory) :
    r'.ClearCopy copy :=
  ⟨h.marks.trans hmarks.symm, h.unbound, h.names.trans hshape.names.symm,
    h.cells.trans hshape.clear_eq.symm⟩

lemma checkNew_eq (h : r.ClearCopy copy) (name : Text) :
    copy.memory.checkNew name = r.memory.checkNew name := by
  simp only [Memory.checkNew, h.names]

lemma define (h : r.ClearCopy copy) {cell : Cell} (hcell : cell.raw = none) (name : Text) :
    (r.changed (r.memory.define name cell)).registry.ClearCopy
      (copy.changed (copy.memory.define name cell)).registry := by
  simp only [Memory.define, h.checkNew_eq]
  cases r.memory.checkNew name with
  | error fault => exact h
  | ok _ =>
    exact ⟨h.marks, h.unbound, by simp [h.names, h.cells],
      by simp [h.cells, Cell.clear_of_raw hcell]⟩

lemma addAlias (h : r.ClearCopy copy) (existing name : Text) :
    (r.changed (r.memory.addAlias existing name)).registry.ClearCopy
      (copy.changed (copy.memory.addAlias existing name)).registry := by
  simp only [Memory.addAlias, Memory.place, h.names, h.checkNew_eq]
  cases r.memory.names.find? existing with
  | none => exact h
  | some place =>
    cases r.memory.checkNew name with
    | error fault => exact h
    | ok _ => exact ⟨h.marks, h.unbound, by simp, h.cells⟩

/-- Names are given alike in both. -/
lemma perform_naming (h : r.ClearCopy copy) (hnaming : operation.isNaming = true) :
    (r.perform operation).registry.ClearCopy (copy.perform operation).registry := by
  cases operation with
  | define name => exact h.define rfl name
  | defineWithDefault name default => exact h.define rfl name
  | defineRepeatable name => exact h.define rfl name
  | defineFlag name => exact h.define rfl name
  | addAlias existing name => exact h.addAlias existing name
  | _ => cases hnaming

/-- Whatever gives no names leaves the copy as good as it was. -/
lemma perform_other (h : r.ClearCopy copy) (hnaming : operation.isNaming = false)
    (hmarks : ∀ marks, operation = .useMarks marks → marks = r.settings.marks) :
    (r.perform operation).registry.ClearCopy copy := by
  refine h.of_sameShape (perform_marks hmarks) ?_
  cases operation with
  | define | defineWithDefault | defineRepeatable | defineFlag | addAlias => cases hnaming
  | parse text => exact (r.parse_runs text).sameShape
  | reset => exact Memory.reset_sameShape _
  | _ => exact ⟨rfl, rfl⟩

lemma performAll {operations : List Operation} (h : r.ClearCopy copy)
    (hmarks : ∀ marks, .useMarks marks ∈ operations → marks = r.settings.marks) :
    (r.performAll operations).ClearCopy
      (copy.performAll (operations.filter Operation.isNaming)) := by
  induction operations generalizing r copy with
  | nil => exact h
  | cons operation operations ih =>
    have hfirst : ∀ marks, operation = .useMarks marks → marks = r.settings.marks :=
      fun marks hmark => hmarks marks (by simp [hmark])
    have hrest : ∀ marks, .useMarks marks ∈ operations →
        marks = (r.perform operation).registry.settings.marks := fun marks hmark =>
      (hmarks marks (List.mem_cons_of_mem _ hmark)).trans (perform_marks hfirst).symm
    cases hnaming : operation.isNaming with
    | true =>
      rw [List.filter_cons_of_pos hnaming]
      exact ih (h.perform_naming hnaming) hrest
    | false =>
      rw [List.filter_cons_of_neg (by simp [hnaming])]
      exact ih (h.perform_other hnaming hfirst) hrest

end ClearCopy

end Registry

end ParamLang
