import ParamLang.Proofs.Registry.Assignment

/-! Commutation. A cell sees only the values that go to it, so assignments to different cells may
change places. -/
namespace ParamLang

namespace Interpret

/-- Whether an entry assigns to the cell at a place. -/
def goesTo (s : Settings) (m : Memory) (place : Nat) (e : Entry) : Bool :=
  (assignment? s m e).any fun a => a.place == place

/-- The same entries in another order, in which those that go to the same cell, by whatever name,
come in the order they had. -/
structure Reorders (s : Settings) (m : Memory) (es es' : List Entry) : Prop where
  perm : es.Perm es'
  order : ∀ place, es'.filter (goesTo s m place) = es.filter (goesTo s m place)

variable {s : Settings} {m : Memory} {es es' : List Entry}

lemma valuesAt_assignments (place : Nat) (es : List Entry) :
    Assignment.valuesAt place (es.filterMap (assignment? s m)) =
      ((es.filter (goesTo s m place)).filterMap (assignment? s m)).map Assignment.value := by
  rw [Assignment.valuesAt, List.filter_filterMap, List.filterMap_filter]
  congr 1
  apply List.filterMap_congr
  intro e _
  cases ha : assignment? s m e with
  | none => simp [goesTo, ha]
  | some a => by_cases hplace : a.place = place <;> simp [goesTo, ha, hplace]

/-- A reordering gives every cell the same values in the same order. -/
lemma Reorders.cells_eq (h : Reorders s m es es') :
    (m.storeAll s.marks (es'.filterMap (assignment? s m))).cells =
      (m.storeAll s.marks (es.filterMap (assignment? s m))).cells := by
  apply List.ext_getElem?
  intro place
  rw [Memory.storeAll_cells, Memory.storeAll_cells, valuesAt_assignments, valuesAt_assignments,
    h.order]

lemma Reorders.history_perm (h : Reorders s m es es') :
    Option.Rel List.Perm (m.storeAll s.marks (es.filterMap (assignment? s m))).history
      (m.storeAll s.marks (es'.filterMap (assignment? s m))).history := by
  rw [Memory.storeAll_history, Memory.storeAll_history]
  cases m.history with
  | none => exact .none
  | some log => exact .some (((h.perm.filterMap _).map _).append_left log)

end Interpret

namespace Registry

open Interpret

/-- Assignments to different parameters commute. Entries that all assign to parameters are
interpreted to their end, and in any order that keeps that of the entries for each cell they leave
the same cells, names and variables, and the same log but for its order. -/
theorem assignments_commute (r : Registry) {es es' : List Entry}
    (hes : ∀ e ∈ es, (assignment? r.settings r.memory e).isSome = true)
    (hreorders : Reorders r.settings r.memory es es') (levels : Nat) (chain : List Text) :
    let o := entries r.settings levels chain es r.memory
    let o' := entries r.settings levels chain es' r.memory
    (o.fault = none ∧ o'.fault = none) ∧ o'.memory.cells = o.memory.cells ∧
      o'.memory.names = o.memory.names ∧ o'.memory.bindings = o.memory.bindings ∧
        Option.Rel List.Perm o.memory.history o'.memory.history := by
  intro o o'
  have hes' : ∀ e ∈ es', (assignment? r.settings r.memory e).isSome = true :=
    fun e he => hes e (hreorders.perm.mem_iff.mpr he)
  have ho : o = .noted _ _ := (entries_eq_each ..).trans (each_assignments hes)
  have ho' : o' = .noted _ _ := (entries_eq_each ..).trans (each_assignments hes')
  rw [ho, ho']
  exact ⟨⟨rfl, rfl⟩, hreorders.cells_eq,
    (Memory.storeAll_names ..).trans (Memory.storeAll_names ..).symm,
    (Memory.storeAll_bindings ..).trans (Memory.storeAll_bindings ..).symm, hreorders.history_perm⟩

/-- Two values for a list, one of them under an alias, and two for another parameter, one of them
under a name that is itself a reference. The list has both, and the other parameter the later one. -/
theorem assignments_commute_alias :
    let r : Registry := ⟨.standard, ⟨[.mandatory, .accumulating],
      .ofList [(['x'], 0), (['l'], 1), (['m'], 1)], .ofList [(['n'], ['x'])], some []⟩⟩
    let first : Entry := .pair ['l'] ['$', '$', 'n']
    let second : Entry := .pair ['x'] ['2']
    let third : Entry := .pair ['m'] ['b']
    let fourth : Entry := .pair ['$', '$', 'n'] ['3']
    let es : List Entry := [first, second, third, fourth]
    let es' : List Entry := [second, first, fourth, third]
    ((∀ e ∈ es, (assignment? r.settings r.memory e).isSome = true) ∧
      Reorders r.settings r.memory es es') ∧
    let o := entries r.settings 100 [] es r.memory
    let o' := entries r.settings 100 [] es' r.memory
    o.memory.cells = [⟨some ['3'], none, false⟩,
        ⟨some ['[', 'x', ']', ' ', '[', 'b', ']'], some [], true⟩] ∧
      (o.fault = none ∧ o'.fault = none) ∧ o'.memory.cells = o.memory.cells ∧
        o'.memory.names = o.memory.names ∧ o'.memory.bindings = o.memory.bindings ∧
          Option.Rel List.Perm o.memory.history o'.memory.history := by
  intro r first second third fourth es es'
  have hfirst : assignment? r.settings r.memory first = some ⟨1, ['l'], ['x']⟩ := by cbv
  have hsecond : assignment? r.settings r.memory second = some ⟨0, ['x'], ['2']⟩ := by cbv
  have hthird : assignment? r.settings r.memory third = some ⟨1, ['m'], ['b']⟩ := by cbv
  have hfourth : assignment? r.settings r.memory fourth = some ⟨0, ['x'], ['3']⟩ := by cbv
  have hes : ∀ e ∈ es, (assignment? r.settings r.memory e).isSome = true := by
    simp [es, hfirst, hsecond, hthird, hfourth]
  have hreorders : Reorders r.settings r.memory es es' := by
    refine ⟨by decide, fun place => ?_⟩
    simp only [es, es', List.filter, goesTo, hfirst, hsecond, hthird, hfourth, Option.any_some]
    rcases place with _ | _ | place <;> rfl
  have hcells : (entries r.settings 100 [] es r.memory).memory.cells =
      [⟨some ['3'], none, false⟩,
        ⟨some ['[', 'x', ']', ' ', '[', 'b', ']'], some [], true⟩] := by
    rw [entries_eq_each, each_assignments hes]
    simp only [es, List.filterMap, hfirst, hsecond, hthird, hfourth]
    cbv
  exact ⟨⟨hes, hreorders⟩, hcells, r.assignments_commute hes hreorders 100 []⟩

end Registry

end ParamLang
