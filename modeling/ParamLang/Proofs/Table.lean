import ParamLang.Table
import Mathlib

/-! Tables made from rows, one put after the other. Of several rows under one name the last one is
found, and where the names differ every row is. -/
namespace ParamLang

namespace Table

variable {α : Type} {rows : List (Text × α)}

lemma ofList_concat (rows : List (Text × α)) (name : Text) (a : α) :
    ofList (rows ++ [(name, a)]) = (ofList rows).put name a := by simp [ofList]

/-- The row that was put last under a name is the one that is found. -/
lemma find?_ofList (rows : List (Text × α)) (name : Text) :
    (ofList rows).find? name = rows.reverse.lookup name := by
  induction rows using List.reverseRecOn with
  | nil => rfl
  | append_singleton rows row ih =>
    obtain ⟨other, a⟩ := row
    rw [ofList_concat, find?_put, ih, List.reverse_concat, List.lookup_cons]
    by_cases h : name = other
    · simp [h]
    · simp [h, beq_eq_false_iff_ne.mpr h]

/-- A table made from rows with distinct names has these rows, in whatever order they stood. -/
lemma find?_ofList_eq_some_iff (h : (rows.map Prod.fst).Nodup) {name : Text} {a : α} :
    (ofList rows).find? name = some a ↔ (name, a) ∈ rows := by
  induction rows using List.reverseRecOn with
  | nil => simp [ofList]
  | append_singleton rows row ih =>
    obtain ⟨other, b⟩ := row
    rw [List.map_append, List.nodup_append] at h
    obtain ⟨hrows, -, hnew⟩ := h
    rw [ofList_concat, find?_put]
    by_cases heq : name = other
    · subst heq
      have hmem : (name, a) ∉ rows := fun hmem =>
        hnew name (List.mem_map_of_mem hmem) name (by simp) rfl
      simp [hmem, eq_comm]
    · simp [heq, ih hrows]

end Table

/-- The last of the pairs under a name has the value. -/
def LastNamed (pairs : List (Text × Text)) (name value : Text) : Prop :=
  ∃ before after, pairs = before ++ (name, value) :: after ∧ ∀ p ∈ after, p.1 ≠ name

variable {pairs : List (Text × Text)} {name value : Text}

lemma lastNamed_iff : LastNamed pairs name value ↔
    (Table.ofList pairs).find? name = some value := by
  rw [Table.find?_ofList, List.lookup_eq_some_iff]
  constructor
  · rintro ⟨before, after, rfl, hafter⟩
    refine ⟨after.reverse, before.reverse, by simp, fun p hp => ?_⟩
    exact bne_iff_ne.mpr (hafter p (List.mem_reverse.mp hp)).symm
  · rintro ⟨after, before, hpairs, hafter⟩
    refine ⟨before.reverse, after.reverse, by simpa using congrArg List.reverse hpairs, ?_⟩
    exact fun p hp => (bne_iff_ne.mp (hafter p (List.mem_reverse.mp hp))).symm

lemma exists_lastNamed_iff : (∃ value, LastNamed pairs name value) ↔
    name ∈ pairs.map Prod.fst := by
  simp only [lastNamed_iff, Table.find?_ofList]
  rw [← Option.isSome_iff_exists, List.lookup_isSome_iff, List.mem_map]
  simp only [List.mem_reverse, beq_iff_eq, eq_comm (a := name)]

end ParamLang
