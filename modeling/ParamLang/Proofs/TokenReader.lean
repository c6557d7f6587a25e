import ParamLang.Proofs.Blame

/-! Tokens that are pulled out of a fragment one at a time, character by character. A reader is inside
a literal only while a token is pulled. Between two pulls it stands outside of all literals or at the
end of the fragment, and all that it has read is behind it, so nothing is lost between tokens. -/
namespace ParamLang

/-- Where a reader stands: between two tokens, in a bare literal, in a bracket with a number of open
brackets, itself among them, or at the end of the fragment. -/
inductive Mode
  | between
  | inBare
  | inBracket (depth openedAt : Nat)
  | ended
  deriving DecidableEq, Repr

structure TokenReader where
  mode : Mode
  cursor : Cursor
  deriving DecidableEq, Repr

namespace Cursor

variable {m : Marks} {c after : Cursor} {s t : Text} {openedAt depth position : Nat}

lemma length_unescape_le (m : Marks) (c : Char) : (m.unescape c).length ≤ 2 := by
  unfold Marks.unescape
  split <;> simp

lemma prepend_length {cs : Text} {read : LiteralRead} {start : Nat}
    (h : prepend cs read = .ok (s, after)) (hcs : position + cs.length ≤ start)
    (hread : ∀ {u}, read = .ok (u, after) → start + u.length ≤ after.position) :
    position + s.length ≤ after.position := by
  obtain ⟨u, hu, rfl⟩ := prepend_eq_ok h
  have hrest := hread hu
  rw [List.length_append]
  omega

/-- A literal has no more characters than were read for it. -/
lemma bare_length (h : bare m position t = .ok (s, after)) :
    position + s.length ≤ after.position := by
  fun_induction bare m position t generalizing s with
  | case1 position =>
    obtain ⟨rfl, rfl⟩ : [] = s ∧ ⟨position, []⟩ = after := by simpa using h
    exact Nat.le_refl _
  | case2 position c t =>
    obtain ⟨rfl, rfl⟩ : [] = s ∧ ⟨position, c :: t⟩ = after := by simpa using h
    exact Nat.le_refl _
  | case3 position c t =>
    obtain ⟨rfl, rfl⟩ : [] = s ∧ ⟨position + 1, t⟩ = after := by simpa using h
    exact Nat.le_succ _
  | case4 => cases h
  | case5 => cases h
  | case6 position d t _ _ _ ih =>
    exact prepend_length h (Nat.add_le_add_left (length_unescape_le m d) position) ih
  | case7 position c t _ _ _ _ ih => exact prepend_length h (Nat.le_refl _) ih

lemma bracket_length (h : bracket m openedAt depth position t = .ok (s, after)) :
    position + s.length ≤ after.position := by
  fun_induction bracket m openedAt depth position t generalizing s with
  | case1 => cases h
  | case2 depth position t ih => exact prepend_length h (Nat.le_refl _) ih
  | case3 position t =>
    obtain ⟨rfl, rfl⟩ : [] = s ∧ ⟨position + 1, t⟩ = after := by simpa using h
    exact Nat.le_succ _
  | case4 position t depth _ ih => exact prepend_length h (Nat.le_refl _) ih
  | case5 => cases h
  | case6 depth position d t _ _ ih =>
    refine prepend_length h (Nat.add_le_add_left ?_ position) ih
    split
    · exact length_unescape_le m d
    · exact Nat.le_refl _
  | case7 depth position c t _ _ _ ih => exact prepend_length h (Nat.le_refl _) ih

lemma step_length (h : step m c = .token (.literal s) after) :
    c.position + s.length ≤ after.position := by
  obtain ⟨position, t⟩ := c
  revert h
  refine step_induction (motive := fun position _ found => found = .token (.literal s) after →
    position + s.length ≤ after.position) ?nil ?blank ?separator ?opener ?bare position t
  case nil =>
    intro position h
    cases h
  case blank =>
    intro position c t _ ih h
    have hread := ih h
    omega
  case separator =>
    intro position t h
    cases h
  case opener =>
    intro position t h
    obtain ⟨u, hread, hliteral⟩ := ofLiteral_eq_token h
    obtain rfl := Token.literal.inj hliteral
    have hlength := bracket_length hread
    omega
  case bare =>
    intro position c t _ _ _ h
    obtain ⟨u, hread, hliteral⟩ := ofLiteral_eq_token h
    obtain rfl := Token.literal.inj hliteral
    exact bare_length hread

end Cursor

namespace TokenReader

def ofText (fragment : Text) : TokenReader := ⟨.between, .start fragment⟩

/-- A token or the end, each with the reader after it, or a misreading. -/
inductive Pulled
  | token (token : Token) (after : TokenReader)
  | done (after : TokenReader)
  | broken (misread : Misread)
  deriving DecidableEq, Repr

/-- Reads on in a mode, with what is read of a literal so far. -/
def pullFrom (m : Marks) : Mode → Text → Nat → Text → Pulled
  | .ended, _, position, t => .done ⟨.ended, ⟨position, t⟩⟩
  | .between, _, position, [] => .done ⟨.ended, ⟨position, []⟩⟩
  | .between, literal, position, c :: t =>
    if Text.isBlank c then pullFrom m .between literal (position + 1) t
    else if c = m.separator then .token .separator ⟨.between, ⟨position + 1, t⟩⟩
    else if c = m.opener then pullFrom m (.inBracket 1 position) literal (position + 1) t
    else if c = m.closer then .broken ⟨.unmatchedCloser, position⟩
    else if c = m.escape then
      match t with
      | [] => .broken ⟨.danglingEscape, position⟩
      | d :: t => pullFrom m .inBare (literal ++ m.unescape d) (position + 2) t
    else pullFrom m .inBare (literal ++ [c]) (position + 1) t
  | .inBare, literal, position, [] => .token (.literal literal) ⟨.ended, ⟨position, []⟩⟩
  | .inBare, literal, position, c :: t =>
    -- A separator or opener is left for the next pull, a blank is not.
    if c = m.separator ∨ c = m.opener then
      .token (.literal literal) ⟨.between, ⟨position, c :: t⟩⟩
    else if Text.isBlank c then .token (.literal literal) ⟨.between, ⟨position + 1, t⟩⟩
    else if c = m.closer then .broken ⟨.unmatchedCloser, position⟩
    else if c = m.escape then
      match t with
      | [] => .broken ⟨.danglingEscape, position⟩
      | d :: t => pullFrom m .inBare (literal ++ m.unescape d) (position + 2) t
    else pullFrom m .inBare (literal ++ [c]) (position + 1) t
  | .inBracket _ openedAt, _, _, [] => .broken ⟨.unterminatedBracket, openedAt⟩
  | .inBracket depth openedAt, literal, position, c :: t =>
    if c = m.opener then
      pullFrom m (.inBracket (depth + 1) openedAt) (literal ++ [c]) (position + 1) t
    else if c = m.closer then
      if depth = 1 then .token (.literal literal) ⟨.between, ⟨position + 1, t⟩⟩
      else pullFrom m (.inBracket (depth - 1) openedAt) (literal ++ [c]) (position + 1) t
    else if c = m.escape then
      match t with
      | [] => .broken ⟨.danglingEscape, position⟩
      | d :: t =>
        pullFrom m (.inBracket depth openedAt)
          (literal ++ if depth = 1 then m.unescape d else [c, d]) (position + 2) t
    else pullFrom m (.inBracket depth openedAt) (literal ++ [c]) (position + 1) t

/-- Every pull begins with an empty literal. -/
def pull (m : Marks) (r : TokenReader) : Pulled :=
  pullFrom m r.mode [] r.cursor.position r.cursor.rest

/-- A reader is at rest outside of all literals, or at the end with nothing left to read. -/
def AtRest (r : TokenReader) : Prop := r.mode = .between ∨ r.mode = .ended ∧ r.cursor.rest = []

/-- A pull does what one step of the cursor does, and leaves the reader at rest. -/
inductive Follows : Cursor.Step → Pulled → Prop
  | token (token : Token) (after : TokenReader) (hafter : after.AtRest) :
      Follows (.token token after.cursor) (.token token after)
  | done (position : Nat) : Follows (.done position) (.done ⟨.ended, ⟨position, []⟩⟩)
  | broken (misread : Misread) : Follows (.broken misread) (.broken misread)

open Cursor (bare bracket prepend Step step)

variable {m : Marks} {literal : Text} {r after : TokenReader}

lemma follows_between (text : Text) (c : Cursor) :
    Follows (.ofLiteral (.ok (text, c))) (.token (.literal text) ⟨.between, c⟩) :=
  .token _ ⟨.between, c⟩ (.inl rfl)

namespace Follows

variable {found : Step} {pulled : Pulled} {tok : Token} {c : Cursor} {next : TokenReader}

lemma eq_token (h : Follows found (.token tok next)) :
    found = .token tok next.cursor ∧ next.AtRest := by
  cases h with
  | token _ _ hafter => exact ⟨rfl, hafter⟩

lemma eq_done (h : Follows found (.done next)) :
    ∃ position, found = .done position ∧ next = ⟨.ended, ⟨position, []⟩⟩ := by
  cases h with
  | done position => exact ⟨position, rfl, rfl⟩

lemma of_token (h : Follows (.token tok c) pulled) :
    ∃ next, pulled = .token tok next ∧ next.cursor = c ∧ next.AtRest := by
  cases h with
  | token _ next hafter => exact ⟨next, rfl, rfl, hafter⟩

lemma of_done {position : Nat} (h : Follows (.done position) pulled) :
    pulled = .done ⟨.ended, ⟨position, []⟩⟩ := by
  cases h with
  | done => rfl

lemma of_broken {misread : Misread} (h : Follows (.broken misread) pulled) :
    pulled = .broken misread := by
  cases h with
  | broken => rfl

end Follows

/-- In a bare literal a pull goes on as the cursor reads it, after what it has read already. -/
lemma pullFrom_bare (m : Marks) (literal : Text) (position : Nat) (t : Text) :
    Follows (.ofLiteral (prepend literal (bare m position t)))
      (pullFrom m .inBare literal position t) := by
  fun_induction bare m position t generalizing literal with rw [pullFrom.eq_def]
  | case1 position =>
    rw [Cursor.prepend_ok, List.append_nil]
    exact .token _ ⟨.ended, ⟨position, []⟩⟩ (.inr ⟨rfl, rfl⟩)
  | case2 position c t hstop =>
    simp only [if_pos hstop, Cursor.prepend_ok, List.append_nil]
    exact follows_between literal _
  | case3 position c t hstop hblank =>
    simp only [if_neg hstop, if_pos hblank, Cursor.prepend_ok, List.append_nil]
    exact follows_between literal _
  | case4 position t hstop hblank =>
    simp only [if_neg hstop, if_neg hblank, if_true]
    exact .broken _
  | case5 position hstop hblank hcloser =>
    simp only [if_neg hstop, if_neg hblank, if_neg hcloser, if_true]
    exact .broken _
  | case6 position d t hstop hblank hcloser ih =>
    simp only [if_neg hstop, if_neg hblank, if_neg hcloser, if_true, Cursor.prepend_prepend]
    exact ih _
  | case7 position c t hstop hblank hcloser hescape ih =>
    simp only [if_neg hstop, if_neg hblank, if_neg hcloser, if_neg hescape,
      Cursor.prepend_prepend]
    exact ih _

lemma pullFrom_bracket (m : Marks) (literal : Text) (openedAt depth position : Nat) (t : Text) :
    Follows (.ofLiteral (prepend literal (bracket m openedAt depth position t)))
      (pullFrom m (.inBracket (depth + 1) openedAt) literal position t) := by
  fun_induction bracket m openedAt depth position t generalizing literal with rw [pullFrom.eq_def]
  | case1 => exact .broken _
  | case2 depth position t ih =>
    simp only [if_true, Cursor.prepend_prepend]
    exact ih _
  | case3 position t hopener =>
    simp only [if_neg hopener, if_true, Nat.zero_add, Cursor.prepend_ok, List.append_nil]
    exact follows_between literal _
  | case4 position t depth hopener ih =>
    simp only [if_neg hopener, if_true, Nat.add_eq_right, Nat.succ_ne_zero, if_false,
      Nat.add_sub_cancel, Cursor.prepend_prepend]
    exact ih _
  | case5 depth position hopener hcloser =>
    simp only [if_neg hopener, if_neg hcloser, if_true]
    exact .broken _
  | case6 depth position d t hopener hcloser ih =>
    simp only [if_neg hopener, if_neg hcloser, if_true, Nat.add_eq_right, Cursor.prepend_prepend]
    exact ih _
  | case7 depth position c t hopener hcloser hescape ih =>
    simp only [if_neg hopener, if_neg hcloser, if_neg hescape, Cursor.prepend_prepend]
    exact ih _

/-- Outside of all literals, a pull begins as a step does. -/
lemma pullFrom_between (m : Marks) (position : Nat) (t : Text) :
    Follows (step m ⟨position, t⟩) (pullFrom m .between [] position t) := by
  refine Cursor.step_induction
    (motive := fun position t s => Follows s (pullFrom m .between [] position t))
    ?nil ?blank ?separator ?opener ?bare position t
  case nil => exact .done
  case blank =>
    intro position c t hblank ih
    rw [pullFrom.eq_def]
    simp only [if_pos hblank]
    exact ih
  case separator =>
    intro position t
    rw [pullFrom.eq_def]
    simp only [m.separator_not_blank, Bool.false_eq_true, if_false, if_true]
    exact .token .separator ⟨.between, ⟨position + 1, t⟩⟩ (.inl rfl)
  case opener =>
    intro position t
    have hread := pullFrom_bracket m [] position 0 (position + 1) t
    rw [Cursor.prepend_nil] at hread
    rw [pullFrom.eq_def]
    simpa using hread
  case bare =>
    intro position c t hs ho hblank
    have hread := pullFrom_bare m [] position (c :: t)
    have hsame : pullFrom m .between [] position (c :: t) =
        pullFrom m .inBare [] position (c :: t) := by
      rw [pullFrom.eq_def, pullFrom.eq_def m .inBare]
      simp only [hblank, hs, ho, Bool.false_eq_true, or_self, if_false]
    rw [Cursor.prepend_nil] at hread
    rwa [hsame]

/-- A pull out of a reader at rest does what a step of its cursor does. -/
lemma pull_follows (h : r.AtRest) : Follows (step m r.cursor) (r.pull m) := by
  obtain ⟨mode, position, t⟩ := r
  obtain rfl | ⟨rfl, rfl⟩ := h
  · exact pullFrom_between m position t
  · rw [Cursor.step_nil]
    exact .done position

/-- Tokens pulled one after the other, each with the position after it. -/
inductive Yields (m : Marks) : TokenReader → List (Token × Nat) → TokenReader → Prop
  | stop (r : TokenReader) : Yields m r [] r
  | pull {r mid last : TokenReader} {token : Token} {tokens : List (Token × Nat)}
      (hpull : r.pull m = .token token mid) (rest : Yields m mid tokens last) :
      Yields m r ((token, mid.cursor.position) :: tokens) last

/-- A reader pulls the end, or a misreading, just as a run of tokens ends. -/
def Ends (m : Marks) (r : TokenReader) : Except Misread Nat → Prop
  | .ok position => r.pull m = .done ⟨.ended, ⟨position, []⟩⟩
  | .error misread => r.pull m = .broken misread

variable {tokens : List (Token × Nat)} {last next : TokenReader} {tok : Token} {s t : Text}

/-- A token that is pulled out of a reader at rest is a step of its cursor, and the reader comes to
rest again. -/
lemma step_of_pull (hr : r.AtRest) (h : r.pull m = .token tok next) :
    step m r.cursor = .token tok next.cursor ∧ next.AtRest := by
  have hfollows := pull_follows (m := m) hr
  rw [h] at hfollows
  exact hfollows.eq_token

namespace Yields

lemma atRest (h : Yields m r tokens last) (hr : r.AtRest) : last.AtRest := by
  induction h with
  | stop r => exact hr
  | pull hpull rest ih => exact ih (step_of_pull hr hpull).2

/-- What has been read is a part of the fragment of its own. -/
lemma passes (h : Yields m r tokens last) (hr : r.AtRest) :
    ∃ front, Cursor.Passes m r.cursor front last.cursor := by
  induction h with
  | stop r => exact ⟨[], .nil, rfl, rfl⟩
  | pull hpull rest ih =>
    obtain ⟨hstep, hmid⟩ := step_of_pull hr hpull
    obtain ⟨front, hfront⟩ := Cursor.step_passes hstep
    obtain ⟨back, hback⟩ := ih hmid
    exact ⟨front ++ back, hfront.trans hback⟩

/-- Every token has taken a character at least. -/
lemma length_le (h : Yields m r tokens last) (hr : r.AtRest) :
    r.cursor.position + tokens.length ≤ last.cursor.position := by
  induction h with
  | stop r => exact Nat.le_refl _
  | pull hpull rest ih =>
    obtain ⟨hstep, hmid⟩ := step_of_pull hr hpull
    have hadvance := (Cursor.step_spans hstep).2
    have hrest := ih hmid
    rw [List.length_cons]
    omega

end Yields

/-- Pulling gives the tokens of the run, and ends as it does. -/
lemma yields_ofCursor (hr : r.AtRest) : ∃ last,
    Yields m r (TokenRun.ofCursor m r.cursor).tokens last ∧
      last.Ends m (TokenRun.ofCursor m r.cursor).ending := by
  generalize hcursor : r.cursor = c
  fun_induction TokenRun.ofCursor m c generalizing r with subst hcursor
  | case1 c token after hstep _ ih =>
    have hfollows := pull_follows (m := m) hr
    rw [hstep] at hfollows
    obtain ⟨next, hpull, rfl, hnext⟩ := hfollows.of_token
    obtain ⟨last, hyields, hends⟩ := ih hnext rfl
    exact ⟨last, .pull hpull hyields, hends⟩
  | case2 c position hstep =>
    have hfollows := pull_follows (m := m) hr
    rw [hstep] at hfollows
    exact ⟨r, .stop r, hfollows.of_done⟩
  | case3 c misread hstep =>
    have hfollows := pull_follows (m := m) hr
    rw [hstep] at hfollows
    exact ⟨r, .stop r, hfollows.of_broken⟩

/-- After any number of pulls a reader stands between two tokens or at the end, and the fragment is
what it has read and what it has not. Another token takes it on by one character at least and by as
many as a literal has, so that there are no more tokens than characters. The end is at the length of
the fragment, and every later pull leaves the reader there. Pulling gives all tokens of the fragment
and then its end or what is wrong with it. -/
theorem pulls_come_to_rest (m : Marks) (t : Text) :
    (∀ tokens r, Yields m (ofText t) tokens r →
      (r.mode = .between ∨ r.mode = .ended) ∧
      (∃ front, t = front ++ r.cursor.rest ∧ r.cursor.position = front.length) ∧
      tokens.length ≤ t.length ∧
      (∀ tok next, r.pull m = .token tok next → r.cursor.position < next.cursor.position ∧
        ∀ s, tok = .literal s → r.cursor.position + s.length ≤ next.cursor.position) ∧
      ∀ next, r.pull m = .done next →
        next.mode = .ended ∧ next.cursor.position = t.length ∧ next.pull m = .done next) ∧
    ∃ last, Yields m (ofText t) (TokenRun.ofText m t).tokens last ∧
      last.Ends m (TokenRun.ofText m t).ending := by
  have hstart : (ofText t).AtRest := .inl rfl
  refine ⟨fun tokens r h => ?_, yields_ofCursor hstart⟩
  have hr := h.atRest hstart
  obtain ⟨front, hfront⟩ := h.passes hstart
  have hrest : t = front ++ r.cursor.rest := hfront.rest_eq
  have hposition : r.cursor.position = front.length := by
    rw [hfront.position_eq]
    exact Nat.zero_add _
  refine ⟨hr.imp_right And.left, ⟨front, hrest, hposition⟩, ?_, fun tok next hpull => ?_,
    fun next hpull => ?_⟩
  · have htokens := h.length_le hstart
    rw [hrest, List.length_append]
    omega
  · obtain ⟨hstep, -⟩ := step_of_pull hr hpull
    refine ⟨(Cursor.step_spans hstep).2, ?_⟩
    rintro s rfl
    exact Cursor.step_length hstep
  · have hfollows := pull_follows (m := m) hr
    rw [hpull] at hfollows
    obtain ⟨position, hstep, rfl⟩ := hfollows.eq_done
    have htotal := Cursor.total_of_step_done hstep
    refine ⟨rfl, ?_, rfl⟩
    rw [htotal, Cursor.total, hposition, hrest, List.length_append]

/-- An escaped blank, a nested bracket with an escape in it, and a literal that the end cuts off. -/
theorem pulls_come_to_rest_nested :
    let t : Text := ['a', '\\', ' ', '[', 'b', '[', '\\', ']', ']', ']', '=', ' ', 'c']
    let tokens : List (Token × Nat) := [(.literal ['a', ' '], 3),
      (.literal ['b', '[', '\\', ']', ']'], 10), (.separator, 11)]
    let r : TokenReader := ⟨.between, ⟨11, [' ', 'c']⟩⟩
    let last : TokenReader := ⟨.ended, ⟨13, []⟩⟩
    (Yields .standard (ofText t) tokens r ∧ tokens.length ≤ t.length) ∧
      (r.pull .standard = .token (.literal ['c']) last ∧
        r.cursor.position + ['c'].length ≤ last.cursor.position) ∧
      last.pull .standard = .done last ∧ last.cursor.position = t.length := by
  intro t tokens r last
  let a : TokenReader := ⟨.between, ⟨3, t.drop 3⟩⟩
  let b : TokenReader := ⟨.between, ⟨10, t.drop 10⟩⟩
  have ha : (ofText t).pull .standard = .token (.literal ['a', ' ']) a := by decide
  have hb : a.pull .standard = .token (.literal ['b', '[', '\\', ']', ']']) b := by decide
  have hseparator : b.pull .standard = .token .separator r := by decide
  have hyields {more : List (Token × Nat)} {final : TokenReader}
      (h : Yields .standard r more final) : Yields .standard (ofText t) (tokens ++ more) final :=
    .pull ha (.pull hb (.pull hseparator h))
  have hr : Yields .standard (ofText t) tokens r := hyields (.stop r)
  have hc : r.pull .standard = .token (.literal ['c']) last := by decide
  have hlast := hyields (.pull hc (.stop last))
  have hdone : last.pull .standard = .done last := by decide
  obtain ⟨hpulls, -⟩ := pulls_come_to_rest .standard t
  obtain ⟨-, -, hlength, htoken, -⟩ := hpulls _ r hr
  obtain ⟨-, -, -, -, hend⟩ := hpulls _ last hlast
  exact ⟨⟨hr, hlength⟩, ⟨hc, (htoken _ last hc).2 _ rfl⟩, hdone, (hend last hdone).2.1⟩

end TokenReader

end ParamLang
