import ParamLang.Proofs.Reading

/-! Brackets and escapes of a fragment. Blanks and separators mean something else in every place of
a reading, but they never decide whether it fails: a fragment can be split into elements just when
its brackets balance, and otherwise a count of open brackets finds the fault. -/
namespace ParamLang

/-- The fragments in which brackets balance. Escapes take the character after them along. -/
inductive Balanced (m : Marks) : Text → Prop
  | nil : Balanced m []
  | ordinary {c : Char} {t : Text} (hc : m.isBracketing c = false) (rest : Balanced m t) :
      Balanced m (c :: t)
  | escaped (c : Char) {t : Text} (rest : Balanced m t) : Balanced m (m.escape :: c :: t)
  | bracket {inside t : Text} (hinside : Balanced m inside) (rest : Balanced m t) :
      Balanced m (m.opener :: (inside ++ m.closer :: t))

namespace Marks

/-- The first fault in a text that stands inside a number of open brackets. -/
def bracketFault? (m : Marks) : Nat → Text → Option Misreading
  | 0, [] => none
  | _ + 1, [] => some .unterminatedBracket
  | depth, c :: t =>
    if c = m.escape then
      match t with
      | [] => some .danglingEscape
      | _ :: t => m.bracketFault? depth t
    else if c = m.opener then m.bracketFault? (depth + 1) t
    else if c = m.closer then
      match depth with
      | 0 => some .unmatchedCloser
      | depth + 1 => m.bracketFault? depth t
    else m.bracketFault? depth t

variable (m : Marks) (depth : Nat)

@[simp] lemma bracketFault?_nil : m.bracketFault? 0 [] = none := by
  rw [bracketFault?.eq_def]

@[simp] lemma bracketFault?_open_nil :
    m.bracketFault? (depth + 1) [] = some .unterminatedBracket := by
  rw [bracketFault?.eq_def]

@[simp] lemma bracketFault?_last_escape :
    m.bracketFault? depth [m.escape] = some .danglingEscape := by
  rw [bracketFault?.eq_def]
  simp

@[simp] lemma bracketFault?_escape (c : Char) (t : Text) :
    m.bracketFault? depth (m.escape :: c :: t) = m.bracketFault? depth t := by
  rw [bracketFault?.eq_def]
  simp

@[simp] lemma bracketFault?_opener (t : Text) :
    m.bracketFault? depth (m.opener :: t) = m.bracketFault? (depth + 1) t := by
  rw [bracketFault?.eq_def]
  simp [m.escape_ne_opener.symm]

@[simp] lemma bracketFault?_last_closer (t : Text) :
    m.bracketFault? 0 (m.closer :: t) = some .unmatchedCloser := by
  rw [bracketFault?.eq_def]
  simp [m.escape_ne_closer.symm]

@[simp] lemma bracketFault?_inner_closer (t : Text) :
    m.bracketFault? (depth + 1) (m.closer :: t) = m.bracketFault? depth t := by
  rw [bracketFault?.eq_def]
  simp [m.escape_ne_closer.symm]

lemma bracketFault?_ordinary {c : Char} (h : m.isBracketing c = false) (t : Text) :
    m.bracketFault? depth (c :: t) = m.bracketFault? depth t := by
  simp only [isBracketing, Bool.or_eq_false_iff, beq_eq_false_iff_ne] at h
  rw [bracketFault?.eq_def]
  simp [h]

end Marks

namespace Cursor

variable (m : Marks)

/-- The fault of a reading, or else the first fault in what it leaves outside brackets. -/
def faultFrom? : LiteralRead → Option Misreading
  | .error misread => some misread.kind
  | .ok (_, after) => m.bracketFault? 0 after.rest

@[simp] lemma faultFrom?_prepend (cs : Text) (read : LiteralRead) :
    faultFrom? m (prepend cs read) = faultFrom? m read := by
  cases read <;> rfl

/-- A bare literal leaves a text with the same first fault, or ends at it. -/
lemma faultFrom?_bare (position : Nat) (t : Text) :
    faultFrom? m (bare m position t) = m.bracketFault? 0 t := by
  fun_induction bare m position t with
  | case1 => simp [faultFrom?]
  | case2 => rfl
  | case3 position c t _ hblank =>
    exact (m.bracketFault?_ordinary 0 (Marks.isBracketing_of_blank hblank) t).symm
  | case4 => simp [faultFrom?]
  | case5 => simp [faultFrom?]
  | case6 position _ _ _ c t ih => rw [faultFrom?_prepend, ih, m.bracketFault?_escape]
  | case7 position c t hstop _ hcloser hescape ih =>
    have hopener : c ≠ m.opener := fun ho => hstop (.inr ho)
    have hc := Marks.isBracketing_eq_false_iff.mpr ⟨hopener, hcloser, hescape⟩
    rw [faultFrom?_prepend, ih, m.bracketFault?_ordinary 0 hc]

lemma faultFrom?_bracket (openedAt depth position : Nat) (t : Text) :
    faultFrom? m (bracket m openedAt depth position t) = m.bracketFault? (depth + 1) t := by
  fun_induction bracket m openedAt depth position t with
  | case1 => simp [faultFrom?]
  | case2 depth position t ih => rw [faultFrom?_prepend, ih, m.bracketFault?_opener]
  | case3 => simp [faultFrom?]
  | case4 position t depth _ ih => rw [faultFrom?_prepend, ih, m.bracketFault?_inner_closer]
  | case5 => simp [faultFrom?]
  | case6 depth position c t _ _ ih => rw [faultFrom?_prepend, ih, m.bracketFault?_escape]
  | case7 depth position c t hopener hcloser hescape ih =>
    have hc := Marks.isBracketing_eq_false_iff.mpr ⟨hopener, hcloser, hescape⟩
    rw [faultFrom?_prepend, ih, m.bracketFault?_ordinary (depth + 1) hc]

/-- The fault of a step, or else the first fault in what it leaves. -/
def Step.faultFrom? : Step → Option Misreading
  | .token _ after => m.bracketFault? 0 after.rest
  | .done _ => none
  | .broken misread => some misread.kind

@[simp] lemma faultFrom?_ofLiteral (read : LiteralRead) :
    (Step.ofLiteral read).faultFrom? m = Cursor.faultFrom? m read := by
  cases read <;> rfl

lemma faultFrom?_step (position : Nat) (t : Text) :
    (step m ⟨position, t⟩).faultFrom? m = m.bracketFault? 0 t := by
  refine step_induction (motive := fun _ t s => s.faultFrom? m = m.bracketFault? 0 t)
    ?nil ?blank ?separator ?opener ?bare position t
  case nil => exact fun _ => m.bracketFault?_nil.symm
  case blank =>
    intro position c t hblank ih
    rw [ih, m.bracketFault?_ordinary 0 (Marks.isBracketing_of_blank hblank)]
  case separator =>
    intro position t
    exact (m.bracketFault?_ordinary 0 m.isBracketing_separator t).symm
  case opener =>
    intro position t
    rw [faultFrom?_ofLiteral, faultFrom?_bracket, m.bracketFault?_opener]
  case bare =>
    intro position c t _ _ _
    rw [faultFrom?_ofLiteral, faultFrom?_bare]

end Cursor

/-- The kind of fault that a run ends with, if it does not reach the end of the fragment. -/
def TokenRun.fault? (run : TokenRun) : Option Misreading :=
  match run.ending with
  | .ok _ => none
  | .error misread => some misread.kind

/-- A run ends with the fault that the count of open brackets finds. -/
lemma TokenRun.fault?_ofCursor (m : Marks) (c : Cursor) :
    (ofCursor m c).fault? = m.bracketFault? 0 c.rest := by
  fun_induction ofCursor m c with
  | case1 c token after hstep _ ih =>
    rw [← Cursor.faultFrom?_step m c.position, hstep]
    exact ih
  | case2 c position hstep =>
    rw [← Cursor.faultFrom?_step m c.position, hstep]
    rfl
  | case3 c misread hstep =>
    rw [← Cursor.faultFrom?_step m c.position, hstep]
    rfl

lemma Balanced.bracketFault?_append {m : Marks} {t : Text} (h : Balanced m t) (depth : Nat)
    (u : Text) : m.bracketFault? depth (t ++ u) = m.bracketFault? depth u := by
  induction h generalizing depth u with
  | nil => rfl
  | ordinary hc rest ih => rw [List.cons_append, m.bracketFault?_ordinary depth hc, ih]
  | escaped c rest ih => rw [List.cons_append, List.cons_append, m.bracketFault?_escape, ih]
  | @bracket inside t hinside rest ihinside ih =>
    rw [List.cons_append, m.bracketFault?_opener, List.append_assoc, ihinside, List.cons_append,
      m.bracketFault?_inner_closer, ih]

/-- The texts that close a number of open brackets and are balanced apart from that. -/
inductive Closes (m : Marks) : Nat → Text → Prop
  | balanced {t : Text} (h : Balanced m t) : Closes m 0 t
  | closer {depth : Nat} {t u : Text} (h : Balanced m t) (rest : Closes m depth u) :
      Closes m (depth + 1) (t ++ m.closer :: u)

lemma Balanced.append {m : Marks} {t u : Text} (h : Balanced m t) (hu : Balanced m u) :
    Balanced m (t ++ u) := by
  induction h with
  | nil => exact hu
  | ordinary hc rest ih => exact .ordinary hc ih
  | escaped c rest ih => exact .escaped c ih
  | @bracket inside t hinside rest ihinside ih =>
    rw [List.cons_append, List.append_assoc, List.cons_append]
    exact .bracket hinside ih

namespace Closes

variable {m : Marks} {depth : Nat} {front t : Text} {c : Char}

/-- A balanced text may stand in front of a text with closers. -/
lemma prepend (hfront : Balanced m front) (h : Closes m depth t) : Closes m depth (front ++ t) := by
  cases h with
  | balanced h => exact .balanced (hfront.append h)
  | closer h rest =>
    rw [← List.append_assoc]
    exact .closer (hfront.append h) rest

/-- The first of the closers belongs to an opener in front of the text. -/
lemma opener (h : Closes m (depth + 1) t) : Closes m depth (m.opener :: t) := by
  cases h with
  | @closer _ inside rest hinside hrest =>
    have hbracket : Balanced m (m.opener :: (inside ++ [m.closer])) := .bracket hinside .nil
    simpa using hrest.prepend hbracket

lemma ordinary (hc : m.isBracketing c = false) (h : Closes m depth t) : Closes m depth (c :: t) :=
  h.prepend (.ordinary hc .nil)

lemma escaped (c : Char) (h : Closes m depth t) : Closes m depth (m.escape :: c :: t) :=
  h.prepend (.escaped c .nil)

lemma balanced_of_zero (h : Closes m 0 t) : Balanced m t := by
  cases h with
  | balanced h => exact h

end Closes

/-- Where the count finds no fault, every open bracket is closed. -/
lemma closes_of_bracketFault? {m : Marks} {depth : Nat} {t : Text}
    (h : m.bracketFault? depth t = none) : Closes m depth t := by
  fun_induction Marks.bracketFault? m depth t with
  | case1 => exact .balanced .nil
  | case2 => simp at h
  | case3 => simp at h
  | case4 depth c t ih => exact (ih h).escaped c
  | case5 depth t _ ih => exact (ih h).opener
  | case6 => simp at h
  | case7 t depth _ _ ih => exact .closer .nil (ih h)
  | case8 depth c t hescape hopener hcloser ih =>
    exact (ih h).ordinary (Marks.isBracketing_eq_false_iff.mpr ⟨hopener, hcloser, hescape⟩)

lemma balanced_iff_bracketFault? {m : Marks} {t : Text} :
    Balanced m t ↔ m.bracketFault? 0 t = none := by
  constructor
  · intro h
    have happend := h.bracketFault?_append 0 []
    rwa [List.append_nil, m.bracketFault?_nil] at happend
  · exact fun h => (closes_of_bracketFault? h).balanced_of_zero

lemma elements_cases (m : Marks) (t : Text) :
    (m.bracketFault? 0 t = none ∧ ∃ es, elements m t = .ok es) ∨
      ∃ kind position, m.bracketFault? 0 t = some kind ∧
        elements m t = .error (Misread.fault ⟨kind, position⟩ t) := by
  have hfault : (TokenRun.ofText m t).fault? = m.bracketFault? 0 t := TokenRun.fault?_ofCursor m _
  rw [← hfault]
  cases hending : (TokenRun.ofText m t).ending with
  | ok position => exact .inl (by simp [elements, TokenRun.fault?, hending])
  | error misread =>
    obtain ⟨kind, position⟩ := misread
    exact .inr ⟨kind, position, by simp [TokenRun.fault?, hending], by simp [elements, hending]⟩

lemma exists_elements_iff_balanced {m : Marks} {t : Text} :
    (∃ es, elements m t = .ok es) ↔ Balanced m t := by
  rw [balanced_iff_bracketFault?]
  obtain ⟨hnone, hok⟩ | ⟨kind, position, hsome, herror⟩ := elements_cases m t
  · simp [hnone, hok]
  · simp [hsome, herror]

/-- A fragment is split into elements just when its brackets balance. Otherwise the fault is of the
kind that the count of open brackets finds. -/
theorem elements_grammar (m : Marks) (t : Text) :
    ((∃ es, elements m t = .ok es) ↔ Balanced m t) ∧
      (¬Balanced m t → ∃ kind position, m.bracketFault? 0 t = some kind ∧
        elements m t = .error (Misread.fault ⟨kind, position⟩ t)) := by
  refine ⟨exists_elements_iff_balanced, fun hnot => ?_⟩
  obtain ⟨hnone, -⟩ | hfault := elements_cases m t
  · exact absurd (balanced_iff_bracketFault?.mpr hnone) hnot
  · exact hfault

/-- An escape at the end of an open bracket, a closer that only an escaped opener stands before, and
a bracket that is left open because its closer is escaped. -/
theorem elements_grammar_faults :
    (¬Balanced .standard ['[', 'a', '\\'] ∧
      ∃ position, elements .standard ['[', 'a', '\\'] =
        .error (Misread.fault ⟨.danglingEscape, position⟩ ['[', 'a', '\\'])) ∧
    (¬Balanced .standard ['\\', '[', ' ', ']'] ∧
      ∃ position, elements .standard ['\\', '[', ' ', ']'] =
        .error (Misread.fault ⟨.unmatchedCloser, position⟩ ['\\', '[', ' ', ']'])) ∧
    (¬Balanced .standard ['[', '[', ']', '\\', ']'] ∧
      ∃ position, elements .standard ['[', '[', ']', '\\', ']'] =
        .error (Misread.fault ⟨.unterminatedBracket, position⟩ ['[', '[', ']', '\\', ']'])) := by
  have hblamed {t : Text} {found : Misreading} (h : Marks.standard.bracketFault? 0 t = some found) :
      ¬Balanced .standard t ∧
        ∃ position, elements .standard t = .error (Misread.fault ⟨found, position⟩ t) := by
    have hnot : ¬Balanced .standard t := by simp [balanced_iff_bracketFault?, h]
    obtain ⟨kind, position, hkind, helements⟩ := (elements_grammar .standard t).2 hnot
    obtain rfl : found = kind := Option.some.inj (h.symm.trans hkind)
    exact ⟨hnot, position, helements⟩
  exact ⟨hblamed (by decide), hblamed (by decide), hblamed (by decide)⟩

end ParamLang
