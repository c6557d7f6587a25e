import Mathlib.Data.Char
import Mathlib.Data.List.Lex
import Mathlib.Data.List.Sort
import ParamLang.Table

/-! The order of texts. It is the lexicographic one, and so linear: of two texts that differ, one
comes before the other. -/
namespace ParamLang.Text

lemma precedes_iff_le (s t : Text) : s.precedes t = true ↔ s ≤ t := by
  rw [← not_lt]
  induction s generalizing t with
  | nil => simp [precedes]
  | cons a s ih =>
    cases t with
    | nil => simp [precedes]
    | cons b t =>
      rw [precedes, List.cons_lt_cons_iff]
      by_cases hab : a = b
      · subst hab
        simp [ih]
      · have hlt : a.toNat < b.toNat ↔ a < b := UInt32.lt_iff_toNat_lt.symm
        have hle : ¬ b < a ↔ a < b := not_lt.trans (Ne.le_iff_lt hab)
        simp [hab, Ne.symm hab, hlt, hle]

lemma sorted_perm (ts : List Text) : (sorted ts).Perm ts := List.mergeSort_perm ts precedes

@[simp] lemma mem_sorted {ts : List Text} {t : Text} : t ∈ sorted ts ↔ t ∈ ts :=
  (sorted_perm ts).mem_iff

lemma sortedLE_sorted (ts : List Text) : (sorted ts).SortedLE := by
  have hprecedes : precedes = fun s t : Text => decide (s ≤ t) := by
    funext s t
    rw [Bool.eq_iff_iff, precedes_iff_le, decide_eq_true_iff]
  rw [sorted, hprecedes]
  exact List.sortedLE_mergeSort

/-- Different texts come out in strict order. -/
lemma sortedLT_sorted {ts : List Text} (h : ts.Nodup) : (sorted ts).SortedLT :=
  (sortedLE_sorted ts).sortedLT_of_nodup ((sorted_perm ts).nodup_iff.mpr h)

/-- The same first character changes nothing in the order. -/
lemma strictMono_cons (c : Char) : StrictMono fun t : Text => c :: t := fun s t h => by
  simpa using h

end ParamLang.Text
