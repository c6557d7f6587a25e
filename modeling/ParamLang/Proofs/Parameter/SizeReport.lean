import ParamLang.Proofs.Parameter.Checked

/-! Reports of a wrong number of elements. A range is reported by inclusive bounds, and these
enclose just the sizes that it allows where each of its bounds has an inclusive counterpart. There
is none after the largest word, and none before zero. -/
namespace ParamLang

/-- A size lies between inclusive bounds, either of which may be missing. -/
def Within (least most : Option Nat) (size : Nat) : Prop :=
  (∀ n ∈ least, n ≤ size) ∧ ∀ n ∈ most, size ≤ n

namespace SizeRange

def reportedLeast (range : SizeRange) : Option Nat := (least? range.lower).map UInt64.toNat

def reportedMost (range : SizeRange) : Option Nat := (most? range.upper).map UInt64.toNat

/-- The least size is computed without overflow. -/
def CountsOn (range : SizeRange) : Prop :=
  ∀ n, range.lower = .excluded n → (n + 1).toNat = n.toNat + 1

/-- The range can be given by inclusive bounds: there is a word after an excluded lower bound, and
an upper bound that excludes even zero excludes no size that the lower bound does not. -/
structure Expressible (range : SizeRange) : Prop where
  lower : ∀ n, range.lower = .excluded n → n.toNat + 1 < UInt64.size
  upper : range.upper = .excluded 0 → isAbove 0 range.lower = false

variable {range : SizeRange} {b : Bound} {n : UInt64} {size : Nat}

lemma toNat_succ_iff : (n + 1).toNat = n.toNat + 1 ↔ n.toNat + 1 < UInt64.size := by
  have hlt := (n + 1).toNat_lt
  constructor
  · intro h
    rwa [h] at hlt
  · intro h
    rw [UInt64.toNat_add, UInt64.toNat_one]
    exact Nat.mod_eq_of_lt h

lemma toNat_pred (h : n ≠ 0) : (n - 1).toNat = n.toNat - 1 := by
  have hpos : 1 ≤ n := by
    rw [UInt64.le_iff_toNat_le, UInt64.toNat_one]
    exact Nat.pos_of_ne_zero fun hzero => h (UInt64.toNat_inj.mp hzero)
  rw [UInt64.toNat_sub_of_le _ _ hpos, UInt64.toNat_one]

lemma least?_le_iff (h : ∀ n, b = .excluded n → n.toNat + 1 < UInt64.size) :
    (∀ n ∈ (least? b).map UInt64.toNat, n ≤ size) ↔ isAbove size b = true := by
  cases b with
  | unbounded => simp [least?, isAbove]
  | included n => simp [least?, isAbove]
  | excluded n =>
    have hnext : (n + 1).toNat = n.toNat + 1 := toNat_succ_iff.mpr (h n rfl)
    simp [least?, isAbove, hnext]

lemma le_most?_iff (h : b ≠ .excluded 0) :
    (∀ n ∈ (most? b).map UInt64.toNat, size ≤ n) ↔ isBelow size b = true := by
  cases b with
  | unbounded => simp [most?, isBelow]
  | included n => simp [most?, isBelow]
  | excluded n =>
    have hn : n ≠ 0 := fun hzero => h (congrArg Bound.excluded hzero)
    have hpos : 0 < n.toNat := Nat.pos_of_ne_zero fun hzero => hn (UInt64.toNat_inj.mp hzero)
    simp only [most?, hn, if_false, Option.map_some, Option.mem_some_iff, forall_eq', isBelow,
      toNat_pred hn, decide_eq_true_eq]
    omega

/-- Where a range can be given by inclusive bounds, those that are reported give it. -/
lemma within_iff (h : range.Expressible) :
    Within range.reportedLeast range.reportedMost size ↔ range.allows size = true := by
  have hleast : (∀ n ∈ range.reportedLeast, n ≤ size) ↔ isAbove size range.lower = true :=
    least?_le_iff h.lower
  rw [allows, Bool.and_eq_true, ← hleast]
  by_cases hzero : range.upper = .excluded 0
  · -- nothing is allowed, and only zero is within the reported upper bound
    simp only [hzero, isBelow, UInt64.toNat_zero, Nat.not_lt_zero, decide_false, Bool.false_eq_true,
      and_false, iff_false]
    rintro ⟨habove, hbelow⟩
    obtain rfl : size = 0 := by simpa [reportedMost, hzero, most?] using hbelow
    have hallowed := hleast.mp habove
    rw [h.upper hzero] at hallowed
    cases hallowed
  · rw [← le_most?_iff hzero]
    rfl

/-- The reported bounds enclose just the sizes that are allowed where both are inclusive
counterparts of the given ones, and only there. -/
lemma countsOn_and_within_iff : (range.CountsOn ∧ ∀ size,
      Within range.reportedLeast range.reportedMost size ↔ range.allows size = true) ↔
    range.Expressible := by
  constructor
  · rintro ⟨hcounts, hwithin⟩
    have hlower : ∀ n, range.lower = .excluded n → n.toNat + 1 < UInt64.size :=
      fun n hn => toNat_succ_iff.mp (hcounts n hn)
    refine ⟨hlower, fun hzero => ?_⟩
    have hrefused : range.allows 0 = false := by simp [allows, hzero, isBelow]
    rw [Bool.eq_false_iff, Ne, ← least?_le_iff hlower]
    intro hleast
    have hallowed := (hwithin 0).mp ⟨hleast, by simp⟩
    simp [hrefused] at hallowed
  · intro h
    exact ⟨fun n hn => toNat_succ_iff.mpr (h.lower n hn), fun size => within_iff h⟩

end SizeRange

namespace View

variable {v : View} {range : SizeRange} {values : List Text}

lemma texts_of_not_allowed (hvalues : v.rawElements = .ok values)
    (hsize : range.allows values.length = false) : v.texts range =
      .error (.sizeViolated v.name values.length range.reportedLeast range.reportedMost) := by
  simp only [texts, hvalues, ok_bind, SizeRange.check, hsize, Bool.false_eq_true, if_false,
    error_bind]
  rfl

/-- Elements in the right number are refused for references alone. -/
lemma texts_of_allowed (hvalues : v.rawElements = .ok values)
    (hsize : range.allows values.length = true) : v.texts range =
      match values.find? v.hasReferences with
      | some bad => .error (.unresolvedVariable v.name bad)
      | none => .ok values := by
  cases hfind : values.find? v.hasReferences <;>
    simp only [texts, hvalues, ok_bind, SizeRange.check, hsize, if_true, hfind]

/-- The elements of a parameter are refused for their number just when it is not in the range, and
the report gives the number and inclusive bounds. These bounds are computed without overflow and
enclose just the sizes that the range allows, never the refused one, if and only if the bounds of
the range have inclusive counterparts. -/
theorem texts_report_size (hvalues : v.rawElements = .ok values) :
    ((∃ parameter size least most,
          v.texts range = .error (.sizeViolated parameter size least most)) ↔
        range.allows values.length = false) ∧
      (range.allows values.length = false → v.texts range = .error
        (.sizeViolated v.name values.length range.reportedLeast range.reportedMost)) ∧
      ((range.CountsOn ∧ ∀ size, Within range.reportedLeast range.reportedMost size ↔
          range.allows size = true) ↔ range.Expressible) := by
  refine ⟨⟨?_, fun hsize => ⟨_, _, _, _, texts_of_not_allowed hvalues hsize⟩⟩,
    texts_of_not_allowed hvalues, SizeRange.countsOn_and_within_iff⟩
  rintro ⟨parameter, size, least, most, hrefused⟩
  cases hsize : range.allows values.length with
  | false => rfl
  | true =>
    rw [texts_of_allowed hvalues hsize] at hrefused
    split at hrefused <;> simp at hrefused

/-- Three elements where more than three are asked for, and at most as many as there can be. -/
theorem texts_report_size_above :
    let v : View := ⟨['l'], .withDefault ['a', ' ', 'b', ' ', 'c'], .standard⟩
    let range : SizeRange := ⟨.excluded 3, .included 18446744073709551615⟩
    v.rawElements = .ok [['a'], ['b'], ['c']] ∧
      v.texts range = .error (.sizeViolated ['l'] 3 (some 4) (some 18446744073709551615)) ∧
      ∀ size, Within (some 4) (some 18446744073709551615) size ↔ range.allows size = true := by
  intro v range
  have hvalues : v.rawElements = .ok [['a'], ['b'], ['c']] := by cbv
  have hexpressible : range.Expressible := ⟨by rintro n ⟨⟩; decide, by simp [range]⟩
  obtain ⟨-, hreport, hexact⟩ := @texts_report_size v range _ hvalues
  exact ⟨hvalues, hreport (by decide), (hexact.mpr hexpressible).2⟩

/-- An empty list is refused by a range without sizes and by one of more sizes than there can be,
and each time the reported bounds enclose the refused size. -/
theorem refused_size_reported :
    let v : View := ⟨['l'], .accumulating, .standard⟩
    let empty : SizeRange := ⟨.unbounded, .excluded 0⟩
    let beyond : SizeRange := ⟨.excluded 18446744073709551615, .unbounded⟩
    v.rawElements = .ok [] ∧
      v.texts empty = .error (.sizeViolated ['l'] 0 none (some 0)) ∧ Within none (some 0) 0 ∧
      (Fault.sizeViolated ['l'] 0 none (some 0)).message =
        "parameter `l` has 0 values, expected at most 0" ∧
      v.texts beyond = .error (.sizeViolated ['l'] 0 (some 0) none) ∧ Within (some 0) none 0 := by
  intro v empty beyond
  have hvalues : v.rawElements = .ok [] := by cbv
  exact ⟨hvalues, texts_of_not_allowed hvalues rfl, by simp [Within], rfl,
    texts_of_not_allowed hvalues rfl, by simp [Within]⟩

end View

end ParamLang
