import ParamLang.Marks

/-! Tokens of a fragment. Outside brackets, blanks part the literals and the separator is a token of
its own. A bracket is one literal without its outer opener and closer; what it nests is kept as
written. An escape takes its meaning from the character after it, save inside nested brackets, where
both are kept for a later reading. -/
namespace ParamLang

inductive Token
  | literal (text : Text)
  | separator
  deriving DecidableEq, Repr

/-- What is left of a fragment, and how many characters of it have been read. -/
structure Cursor where
  position : Nat
  rest : Text
  deriving DecidableEq, Repr

namespace Cursor

def start (fragment : Text) : Cursor := ⟨0, fragment⟩

def skipBlanks : Nat → Text → Cursor
  | position, [] => ⟨position, []⟩
  | position, c :: t =>
    if Text.isBlank c then skipBlanks (position + 1) t else ⟨position, c :: t⟩

/-- A literal and the cursor after it. -/
abbrev LiteralRead := Except Misread (Text × Cursor)

/-- Puts characters in front of a literal that has been read. -/
def prepend (cs : Text) (read : LiteralRead) : LiteralRead :=
  read.map fun r => (cs ++ r.1, r.2)

/-- Reads a bare literal to its end: a blank, which is consumed, or a separator or opener, which is
left in place. -/
def bare (m : Marks) : Nat → Text → LiteralRead
  | position, [] => .ok ([], ⟨position, []⟩)
  | position, c :: t =>
    if c = m.separator ∨ c = m.opener then .ok ([], ⟨position, c :: t⟩)
    else if Text.isBlank c then .ok ([], ⟨position + 1, t⟩)
    else if c = m.closer then .error ⟨.unmatchedCloser, position⟩
    else if c = m.escape then
      match t with
      | [] => .error ⟨.danglingEscape, position⟩
      | d :: t => prepend (m.unescape d) (bare m (position + 2) t)
    else prepend [c] (bare m (position + 1) t)

/-- Reads the inside of a bracket and its closer. `depth` counts the brackets that are open inside
the one opened at `openedAt`. -/
def bracket (m : Marks) (openedAt : Nat) : Nat → Nat → Text → LiteralRead
  | _, _, [] => .error ⟨.unterminatedBracket, openedAt⟩
  | depth, position, c :: t =>
    if c = m.opener then prepend [c] (bracket m openedAt (depth + 1) (position + 1) t)
    else if c = m.closer then
      match depth with
      | 0 => .ok ([], ⟨position + 1, t⟩)
      | depth + 1 => prepend [c] (bracket m openedAt depth (position + 1) t)
    else if c = m.escape then
      match t with
      | [] => .error ⟨.danglingEscape, position⟩
      | d :: t =>
        prepend (if depth = 0 then m.unescape d else [c, d])
          (bracket m openedAt depth (position + 2) t)
    else prepend [c] (bracket m openedAt depth (position + 1) t)

theorem prepend_eq_ok {cs s : Text} {read : LiteralRead} {after : Cursor}
    (h : prepend cs read = .ok (s, after)) : ∃ u, read = .ok (u, after) ∧ s = cs ++ u := by
  cases read with
  | error e => simp [prepend, Except.map] at h
  | ok r =>
    obtain ⟨u, a⟩ := r
    simp only [prepend, Except.map, Except.ok.injEq, Prod.mk.injEq] at h
    exact ⟨u, by rw [h.2], h.1.symm⟩

/-- The length of the fragment, seen from a cursor into it. -/
def total (c : Cursor) : Nat := c.position + c.rest.length

theorem skipBlanks_total (position : Nat) (t : Text) :
    (skipBlanks position t).total = position + t.length := by
  induction t generalizing position with
  | nil => rfl
  | cons c t ih =>
    simp only [skipBlanks]
    split
    · rw [ih, List.length_cons]
      omega
    · rfl

theorem le_skipBlanks_position (position : Nat) (t : Text) :
    position ≤ (skipBlanks position t).position := by
  induction t generalizing position with
  | nil => exact Nat.le_refl _
  | cons c t ih =>
    simp only [skipBlanks]
    split
    · exact Nat.le_of_succ_le (ih _)
    · exact Nat.le_refl _

theorem bare_spans {m : Marks} {position : Nat} {t s : Text} {after : Cursor}
    (h : bare m position t = .ok (s, after)) :
    after.total = position + t.length ∧ position ≤ after.position := by
  fun_induction bare m position t generalizing s with
  | case1 => simp only [Except.ok.injEq, Prod.mk.injEq] at h; simp [← h.2, total]
  | case2 => simp only [Except.ok.injEq, Prod.mk.injEq] at h; simp [← h.2, total]
  | case3 =>
    simp only [Except.ok.injEq, Prod.mk.injEq] at h
    simp only [← h.2, total, List.length_cons]
    omega
  | case4 => simp at h
  | case5 => simp at h
  | case6 =>
    rename_i ih
    obtain ⟨u, hu, _⟩ := prepend_eq_ok h
    have := ih hu
    simp only [List.length_cons]
    omega
  | case7 =>
    rename_i ih
    obtain ⟨u, hu, _⟩ := prepend_eq_ok h
    have := ih hu
    simp only [List.length_cons]
    omega

theorem bare_advances {m : Marks} {position : Nat} {c : Char} {t s : Text} {after : Cursor}
    (hc : ¬(c = m.separator ∨ c = m.opener)) (h : bare m position (c :: t) = .ok (s, after)) :
    position < after.position := by
  rw [bare.eq_def] at h
  simp only [if_neg hc] at h
  split at h
  · simp only [Except.ok.injEq, Prod.mk.injEq] at h
    simp [← h.2]
  · split at h
    · simp at h
    · split at h
      · split at h
        · simp at h
        · obtain ⟨u, hu, _⟩ := prepend_eq_ok h
          have := (bare_spans hu).2
          omega
      · obtain ⟨u, hu, _⟩ := prepend_eq_ok h
        have := (bare_spans hu).2
        omega

theorem bracket_spans {m : Marks} {openedAt depth position : Nat} {t s : Text} {after : Cursor}
    (h : bracket m openedAt depth position t = .ok (s, after)) :
    after.total = position + t.length ∧ position < after.position := by
  fun_induction bracket m openedAt depth position t generalizing s with
  | case1 => simp at h
  | case3 =>
    simp only [Except.ok.injEq, Prod.mk.injEq] at h
    simp only [← h.2, total, List.length_cons]
    omega
  | case5 => simp at h
  | _ =>
    rename_i ih
    obtain ⟨u, hu, _⟩ := prepend_eq_ok h
    have := ih hu
    simp only [List.length_cons]
    omega

/-- One reading step: a token and where the reading stands after it, the end of the fragment at its
length, or a misreading. -/
inductive Step
  | token (token : Token) (after : Cursor)
  | done (position : Nat)
  | broken (misread : Misread)
  deriving DecidableEq, Repr

def Step.ofLiteral : LiteralRead → Step
  | .error e => .broken e
  | .ok (text, after) => .token (.literal text) after

/-- Reads a token that starts at its first character. -/
def stepHere (m : Marks) : Cursor → Step
  | ⟨position, []⟩ => .done position
  | ⟨position, c :: t⟩ =>
    if c = m.separator then .token .separator ⟨position + 1, t⟩
    else if c = m.opener then .ofLiteral (bracket m position 0 (position + 1) t)
    else .ofLiteral (bare m position (c :: t))

def step (m : Marks) (c : Cursor) : Step := stepHere m (skipBlanks c.position c.rest)

theorem stepHere_spans {m : Marks} {c after : Cursor} {tok : Token}
    (h : stepHere m c = .token tok after) :
    after.total = c.total ∧ c.position < after.position := by
  obtain ⟨position, _ | ⟨d, t⟩⟩ := c
  · simp [stepHere] at h
  · simp only [stepHere] at h
    split at h
    · simp only [Step.token.injEq] at h
      simp only [← h.2, total, List.length_cons]
      omega
    · split at h
      · cases hr : bracket m position 0 (position + 1) t with
        | error e => simp [hr, Step.ofLiteral] at h
        | ok r =>
          simp only [hr, Step.ofLiteral, Step.token.injEq] at h
          have := bracket_spans (hr.trans (congrArg Except.ok (Prod.eta r).symm))
          simp only [← h.2, total, List.length_cons] at this ⊢
          omega
      · cases hr : bare m position (d :: t) with
        | error e => simp [hr, Step.ofLiteral] at h
        | ok r =>
          simp only [hr, Step.ofLiteral, Step.token.injEq] at h
          have hr' := hr.trans (congrArg Except.ok (Prod.eta r).symm)
          rw [← h.2]
          exact ⟨(bare_spans hr').1, bare_advances (by simp_all) hr'⟩

/-- A token takes at least one character and leaves the rest of the fragment as it is. -/
theorem step_spans {m : Marks} {c after : Cursor} {tok : Token} (h : step m c = .token tok after) :
    after.total = c.total ∧ c.position < after.position := by
  have hs := stepHere_spans h
  have ht := skipBlanks_total c.position c.rest
  have hp := le_skipBlanks_position c.position c.rest
  simp only [total] at hs ht ⊢
  omega

theorem step_rest_length {m : Marks} {c after : Cursor} {tok : Token}
    (h : step m c = .token tok after) : after.rest.length < c.rest.length := by
  have := step_spans h
  simp only [total] at this
  omega

end Cursor

/-- All tokens of a fragment, each with the position after it, and how the reading ends: at the
length of the fragment, or with a misreading. -/
structure TokenRun where
  tokens : List (Token × Nat)
  ending : Except Misread Nat

namespace TokenRun

def push (token : Token) (position : Nat) (run : TokenRun) : TokenRun :=
  ⟨(token, position) :: run.tokens, run.ending⟩

def ofCursor (m : Marks) (c : Cursor) : TokenRun :=
  match h : Cursor.step m c with
  | .token token after =>
    have := Cursor.step_rest_length h
    (ofCursor m after).push token after.position
  | .done position => ⟨[], .ok position⟩
  | .broken misread => ⟨[], .error misread⟩
  termination_by c.rest.length
  decreasing_by exact this

theorem ofCursor_of_token {m : Marks} {c after : Cursor} {token : Token}
    (h : Cursor.step m c = .token token after) :
    ofCursor m c = (ofCursor m after).push token after.position := by
  rw [ofCursor]
  split <;> simp_all

theorem ofCursor_of_done {m : Marks} {c : Cursor} {position : Nat}
    (h : Cursor.step m c = .done position) : ofCursor m c = ⟨[], .ok position⟩ := by
  rw [ofCursor]
  split <;> simp_all

theorem ofCursor_of_broken {m : Marks} {c : Cursor} {misread : Misread}
    (h : Cursor.step m c = .broken misread) : ofCursor m c = ⟨[], .error misread⟩ := by
  rw [ofCursor]
  split <;> simp_all

def ofText (m : Marks) (fragment : Text) : TokenRun := ofCursor m (.start fragment)

end TokenRun

/-- The text that a token stands for among the elements of a list. -/
def Token.element (m : Marks) : Token → Text
  | literal text => text
  | separator => [m.separator]

/-- The elements of a list fragment. -/
def elements (m : Marks) (fragment : Text) : Except Fault (List Text) :=
  let run := TokenRun.ofText m fragment
  match run.ending with
  | .ok _ => .ok (run.tokens.map fun t => t.1.element m)
  | .error misread => .error (misread.fault fragment)

end ParamLang
