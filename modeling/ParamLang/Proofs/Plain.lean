import ParamLang.Proofs.Layout
import ParamLang.Proofs.Registry.Moment
import ParamLang.Proofs.Resolution.Settled

/-! Plain texts: those of name characters alone, as the names of directives and of their operands
are. No mark is among such characters, so a plain text is written as it is and refers to nothing. -/
namespace ParamLang

/-- No blank is a name character: none of the blanks' code points is one of a letter or number. -/
lemma isNameChar_of_blank {c : Char} (h : Text.isBlank c = true) : isNameChar c = false := by
  have hpoints : ∀ r ∈ Text.blankRanges, ∀ n ∈ List.range' r.1 (r.2 + 1 - r.1),
      isNameChar (Char.ofNat n) = false := by decide +kernel
  obtain ⟨r, hr, hc⟩ := List.any_eq_true.mp h
  simp only [Bool.and_eq_true, decide_eq_true_eq] at hc
  have hmem : c.toNat ∈ List.range' r.1 (r.2 + 1 - r.1) := by
    rw [List.mem_range'_1]
    omega
  simpa using hpoints r hr c.toNat hmem

/-- A text of name characters alone. -/
def Text.IsPlain (t : Text) : Prop := ∀ c ∈ t, isNameChar c = true

namespace Marks

variable {m : Marks} {c : Char} {t : Text}

lemma not_nameChar_of_mem (m : Marks) (h : c ∈ m.toList) : isNameChar c = false := by
  have hu := m.usable c h
  simp only [isUsableMark, Bool.and_eq_true, Bool.not_eq_true'] at hu
  exact hu.2

lemma sigil_not_mem (m : Marks) (h : t.IsPlain) : m.sigil ∉ t := by
  intro hmem
  have hsigil := m.not_nameChar_of_mem (c := m.sigil) (by simp [toList])
  simp [h m.sigil hmem] at hsigil

lemma not_escapable_of_nameChar (m : Marks) (h : isNameChar c = true) :
    m.isEscapable c = false := by
  have hmark : c ∉ m.toList := by
    intro hmem
    simp [m.not_nameChar_of_mem hmem] at h
  have hblank : Text.isBlank c = false := by
    cases hc : Text.isBlank c with
    | false => rfl
    | true => simp [isNameChar_of_blank hc] at h
  simp only [toList, List.mem_cons, not_or] at hmark
  simp [isEscapable, hmark, hblank]

lemma bareForm_of_plain (m : Marks) (h : t.IsPlain) : m.bareForm t = t := by
  induction t with
  | nil => rfl
  | cons c t ih =>
    have hc := m.not_escapable_of_nameChar (h c (by simp))
    rw [bareForm_cons_of_ordinary hc, ih fun d hd => h d (by simp [hd])]

lemma variableOf?_of_not_mem (h : m.sigil ∉ t) : m.variableOf? t = none := by
  cases t with
  | nil => rfl
  | cons c t =>
    have hc : c ≠ m.sigil := fun heq => h (by simp [heq])
    simp [variableOf?, hc]

end Marks

namespace Resolver

variable {r : Resolver} {text : Text}

lemma resolve_of_not_hasWork (h : r.hasWork text = false) : r.resolve text = .ok ⟨text, false⟩ :=
  resolve_eq_ok_iff.mpr (uncheckedAt_of_not_hasWork h r.limit)

/-- A text without references has nothing to replace, whatever is bound. -/
lemma hasWork_of_not_hasReferences (h : hasReferences r.sigil text = false) :
    r.hasWork text = false := by
  refine List.any_eq_false.mpr fun s hs => ?_
  have hs := List.any_eq_false.mp h s hs
  cases s with
  | literal text => simp [replaces]
  | reference form name => simp [Segment.isReference] at hs

end Resolver

/-- A character that begins no reference leaves the question to the rest of the text. -/
lemma Segment.hasReferences_of_literal {sigil c : Char} {t : Text}
    (h : reference? sigil (c :: t) = none) :
    hasReferences sigil (c :: t) = hasReferences sigil t := by
  simp only [hasReferences, ofText_of_literal h, pushLiteral]
  split <;> simp_all [isReference]

lemma Segment.reference?_of_ne {sigil c : Char} (h : c ≠ sigil) (t : Text) :
    reference? sigil (c :: t) = none := by
  cases t <;> simp [reference?, h]

/-- Every reference begins with the sigil. -/
lemma hasReferences_of_not_mem {sigil : Char} {t : Text} (h : sigil ∉ t) :
    hasReferences sigil t = false := by
  induction t with
  | nil => simp [hasReferences]
  | cons c t ih =>
    have hc : c ≠ sigil := fun heq => h (by simp [heq])
    rw [Segment.hasReferences_of_literal (Segment.reference?_of_ne hc t)]
    exact ih fun hmem => h (List.mem_cons_of_mem _ hmem)

lemma Directive.isPlain_name (d : Directive) : d.name.IsPlain := by
  have hall : d.name.all isNameChar = true := by cases d <;> decide
  exact List.all_eq_true.mp hall

lemma Directive.name_ne_nil (d : Directive) : d.name ≠ [] := by cases d <;> simp [name]

namespace Interpret

/-- A name without references has the role it is written for, whatever is bound. -/
lemma hasRole_of_not_hasReferences {s : Settings} {name : Text}
    (h : hasReferences s.marks.sigil name = false) (m : Memory) :
    HasRole s m name (.ofName s.marks name) :=
  ⟨⟨name, false⟩, Resolver.resolve_of_not_hasWork (Resolver.hasWork_of_not_hasReferences h), rfl⟩

lemma hasRole_directive (s : Settings) (m : Memory) (d : Directive) :
    HasRole s m d.name (.directive d) := by
  have hsigil := s.marks.sigil_not_mem d.isPlain_name
  have hrole : Role.ofName s.marks d.name = .directive d := by
    simp only [Role.ofName, Marks.variableOf?_of_not_mem hsigil,
      (Directive.find?_eq_some_iff d.name d).mpr rfl]
  exact hrole ▸ hasRole_of_not_hasReferences (hasReferences_of_not_mem hsigil) m

end Interpret

end ParamLang
