import ParamLang.Token
import Mathlib

/-! What a reading does at each kind of character: one equation for each. -/
namespace ParamLang

namespace Marks

/-- The marks that token boundaries depend on differ from each other. -/
lemma boundaries_nodup (m : Marks) : [m.opener, m.closer, m.separator, m.escape].Nodup :=
  m.distinct.sublist (by simp)

@[simp] lemma closer_ne_opener (m : Marks) : m.closer ≠ m.opener := by
  have := m.boundaries_nodup; grind

@[simp] lemma separator_ne_opener (m : Marks) : m.separator ≠ m.opener := by
  have := m.boundaries_nodup; grind

@[simp] lemma separator_ne_closer (m : Marks) : m.separator ≠ m.closer := by
  have := m.boundaries_nodup; grind

@[simp] lemma opener_ne_separator (m : Marks) : m.opener ≠ m.separator :=
  m.separator_ne_opener.symm

@[simp] lemma closer_ne_separator (m : Marks) : m.closer ≠ m.separator :=
  m.separator_ne_closer.symm

@[simp] lemma escape_ne_opener (m : Marks) : m.escape ≠ m.opener := by
  have := m.boundaries_nodup; grind

@[simp] lemma escape_ne_closer (m : Marks) : m.escape ≠ m.closer := by
  have := m.boundaries_nodup; grind

@[simp] lemma escape_ne_separator (m : Marks) : m.escape ≠ m.separator := by
  have := m.boundaries_nodup; grind

lemma not_blank_of_mem (m : Marks) {c : Char} (h : c ∈ m.toList) : Text.isBlank c = false := by
  have hu := m.usable c h
  simp only [isUsableMark, Bool.and_eq_true, Bool.not_eq_true'] at hu
  exact hu.1

@[simp] lemma opener_not_blank (m : Marks) : Text.isBlank m.opener = false :=
  m.not_blank_of_mem (by simp [toList])

@[simp] lemma closer_not_blank (m : Marks) : Text.isBlank m.closer = false :=
  m.not_blank_of_mem (by simp [toList])

@[simp] lemma separator_not_blank (m : Marks) : Text.isBlank m.separator = false :=
  m.not_blank_of_mem (by simp [toList])

@[simp] lemma escape_not_blank (m : Marks) : Text.isBlank m.escape = false :=
  m.not_blank_of_mem (by simp [toList])

lemma unescape_of_escapable {m : Marks} {c : Char} (h : m.isEscapable c = true) :
    m.unescape c = [c] := by
  simp [unescape, h]

lemma isEscapable_of_bracketing {m : Marks} {c : Char} (h : m.isBracketing c = true) :
    m.isEscapable c = true := by
  simp only [isBracketing, isEscapable, Bool.or_eq_true] at h ⊢
  rcases h with (h | h) | h <;> simp [h]

lemma isBracketing_eq_false_iff {m : Marks} {c : Char} :
    m.isBracketing c = false ↔ c ≠ m.opener ∧ c ≠ m.closer ∧ c ≠ m.escape := by
  simp [isBracketing, and_assoc]

lemma isBracketing_of_blank {m : Marks} {c : Char} (h : Text.isBlank c = true) :
    m.isBracketing c = false := by
  rw [isBracketing_eq_false_iff]
  refine ⟨?_, ?_, ?_⟩
  · rintro rfl
    simp at h
  · rintro rfl
    simp at h
  · rintro rfl
    simp at h

@[simp] lemma isBracketing_separator (m : Marks) : m.isBracketing m.separator = false := by
  rw [isBracketing_eq_false_iff]
  exact ⟨m.separator_ne_opener, m.separator_ne_closer, m.escape_ne_separator.symm⟩

end Marks

namespace Cursor

@[simp] lemma prepend_ok (cs t : Text) (after : Cursor) :
    prepend cs (.ok (t, after)) = .ok (cs ++ t, after) := rfl

section bracket

variable (m : Marks) (openedAt depth position : Nat)

lemma bracket_opener (t : Text) : bracket m openedAt depth position (m.opener :: t) =
    prepend [m.opener] (bracket m openedAt (depth + 1) (position + 1) t) := by
  rw [bracket.eq_def]
  simp

lemma bracket_last_closer (t : Text) :
    bracket m openedAt 0 position (m.closer :: t) = .ok ([], ⟨position + 1, t⟩) := by
  rw [bracket.eq_def]
  simp

lemma bracket_inner_closer (t : Text) : bracket m openedAt (depth + 1) position (m.closer :: t) =
    prepend [m.closer] (bracket m openedAt depth (position + 1) t) := by
  rw [bracket.eq_def]
  simp

lemma bracket_escape (c : Char) (t : Text) :
    bracket m openedAt depth position (m.escape :: c :: t) =
      prepend (if depth = 0 then m.unescape c else [m.escape, c])
        (bracket m openedAt depth (position + 2) t) := by
  rw [bracket.eq_def]
  simp

lemma bracket_last_escape : bracket m openedAt depth position [m.escape] =
    .error ⟨.danglingEscape, position⟩ := by
  rw [bracket.eq_def]
  simp

lemma bracket_ordinary {c : Char} (h : m.isBracketing c = false) (t : Text) :
    bracket m openedAt depth position (c :: t) =
      prepend [c] (bracket m openedAt depth (position + 1) t) := by
  simp only [Marks.isBracketing, Bool.or_eq_false_iff, beq_eq_false_iff_ne] at h
  rw [bracket.eq_def]
  simp [h]

end bracket

section bare

variable (m : Marks) (position : Nat)

/-- A separator or opener after a bare literal is left for the next reading. -/
lemma bare_stop {c : Char} (h : c = m.separator ∨ c = m.opener) (t : Text) :
    bare m position (c :: t) = .ok ([], ⟨position, c :: t⟩) := by
  rw [bare.eq_def]
  simp [h]

lemma bare_blank {c : Char} (h : Text.isBlank c = true) (t : Text) :
    bare m position (c :: t) = .ok ([], ⟨position + 1, t⟩) := by
  have hs : ¬(c = m.separator ∨ c = m.opener) := by rintro (rfl | rfl) <;> simp at h
  rw [bare.eq_def]
  simp [hs, h]

lemma bare_closer (t : Text) :
    bare m position (m.closer :: t) = .error ⟨.unmatchedCloser, position⟩ := by
  rw [bare.eq_def]
  simp

lemma bare_last_escape : bare m position [m.escape] = .error ⟨.danglingEscape, position⟩ := by
  rw [bare.eq_def]
  simp

lemma bare_escape (c : Char) (t : Text) : bare m position (m.escape :: c :: t) =
    prepend (m.unescape c) (bare m (position + 2) t) := by
  rw [bare.eq_def]
  simp

lemma bare_ordinary {c : Char} (h : m.isEscapable c = false) (t : Text) :
    bare m position (c :: t) = prepend [c] (bare m (position + 1) t) := by
  simp only [Marks.isEscapable, Bool.or_eq_false_iff, beq_eq_false_iff_ne] at h
  rw [bare.eq_def]
  simp [h]

end bare

lemma skipBlanks_of_blank {c : Char} (h : Text.isBlank c = true) (position : Nat) (t : Text) :
    skipBlanks position (c :: t) = skipBlanks (position + 1) t := by
  simp [skipBlanks, h]

lemma skipBlanks_of_not_blank {c : Char} (h : Text.isBlank c = false) (position : Nat)
    (t : Text) : skipBlanks position (c :: t) = ⟨position, c :: t⟩ := by
  simp [skipBlanks, h]

@[simp] lemma step_separator (m : Marks) (position : Nat) (t : Text) :
    step m ⟨position, m.separator :: t⟩ = .token .separator ⟨position + 1, t⟩ := by
  simp [step, skipBlanks_of_not_blank, stepHere]

@[simp] lemma step_opener (m : Marks) (position : Nat) (t : Text) :
    step m ⟨position, m.opener :: t⟩ = .ofLiteral (bracket m position 0 (position + 1) t) := by
  simp [step, skipBlanks_of_not_blank, stepHere]

/-- Any other character begins a bare literal. -/
lemma step_bare {m : Marks} {c : Char} (hs : c ≠ m.separator) (ho : c ≠ m.opener)
    (hb : Text.isBlank c = false) (position : Nat) (t : Text) :
    step m ⟨position, c :: t⟩ = .ofLiteral (bare m position (c :: t)) := by
  simp [step, skipBlanks_of_not_blank hb, stepHere, hs, ho]

@[simp] lemma step_nil (m : Marks) (position : Nat) : step m ⟨position, []⟩ = .done position := by
  simp [step, skipBlanks, stepHere]

lemma step_of_blank {m : Marks} {c : Char} (h : Text.isBlank c = true) (position : Nat)
    (t : Text) : step m ⟨position, c :: t⟩ = step m ⟨position + 1, t⟩ := by
  simp [step, skipBlanks_of_blank h]

/-- A step skips blanks, and then the character it stands at decides what it reads. -/
@[elab_as_elim]
lemma step_induction {m : Marks} {motive : Nat → Text → Step → Prop}
    (nil : ∀ position, motive position [] (.done position))
    (blank : ∀ position c t, Text.isBlank c = true →
      motive (position + 1) t (step m ⟨position + 1, t⟩) →
      motive position (c :: t) (step m ⟨position + 1, t⟩))
    (separator : ∀ position t,
      motive position (m.separator :: t) (.token .separator ⟨position + 1, t⟩))
    (opener : ∀ position t,
      motive position (m.opener :: t) (.ofLiteral (bracket m position 0 (position + 1) t)))
    (bare : ∀ position c t, c ≠ m.separator → c ≠ m.opener → Text.isBlank c = false →
      motive position (c :: t) (.ofLiteral (bare m position (c :: t))))
    (position : Nat) (t : Text) : motive position t (step m ⟨position, t⟩) := by
  induction t generalizing position with
  | nil =>
    rw [step_nil]
    exact nil position
  | cons c t ih =>
    cases hblank : Text.isBlank c with
    | true =>
      rw [step_of_blank hblank]
      exact blank position c t hblank (ih (position + 1))
    | false =>
      by_cases hs : c = m.separator
      · subst hs
        rw [step_separator]
        exact separator position t
      · by_cases ho : c = m.opener
        · subst ho
          rw [step_opener]
          exact opener position t
        · rw [step_bare hs ho hblank]
          exact bare position c t hs ho hblank

end Cursor

namespace TokenRun

/-- A run depends only on what the first step does. -/
lemma ofCursor_congr {m : Marks} {c d : Cursor} (h : Cursor.step m c = Cursor.step m d) :
    ofCursor m c = ofCursor m d := by
  cases hd : Cursor.step m d with
  | token token after => rw [ofCursor_of_token hd, ofCursor_of_token (h.trans hd)]
  | done position => rw [ofCursor_of_done hd, ofCursor_of_done (h.trans hd)]
  | broken misread => rw [ofCursor_of_broken hd, ofCursor_of_broken (h.trans hd)]

lemma ofCursor_of_blank {m : Marks} {c : Char} (h : Text.isBlank c = true) (position : Nat)
    (t : Text) : ofCursor m ⟨position, c :: t⟩ = ofCursor m ⟨position + 1, t⟩ :=
  ofCursor_congr (Cursor.step_of_blank h position t)

end TokenRun

end ParamLang
