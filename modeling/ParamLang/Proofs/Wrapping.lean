import ParamLang.Proofs.Bracketing
import ParamLang.Proofs.Layout

/-! Fragments inside brackets. A bracket around a fragment is one literal, in which the escapes
outside the fragment's own brackets are resolved and all else is as it was. Where there are no such
escapes, taking off brackets gives the fragment back, however many there are. -/
namespace ParamLang

/-- What a fragment becomes when a bracket around it is read. Its own brackets are copied. -/
inductive Unescapes (m : Marks) : Text → Text → Prop
  | nil : Unescapes m [] []
  | ordinary {c : Char} {t u : Text} (hc : m.isBracketing c = false) (rest : Unescapes m t u) :
      Unescapes m (c :: t) (c :: u)
  | dropped {c : Char} {t u : Text} (hc : m.isEscapable c = true) (rest : Unescapes m t u) :
      Unescapes m (m.escape :: c :: t) (c :: u)
  | kept {c : Char} {t u : Text} (hc : m.isEscapable c = false) (rest : Unescapes m t u) :
      Unescapes m (m.escape :: c :: t) (m.escape :: c :: u)
  | bracket {inside t u : Text} (hinside : Balanced m inside) (rest : Unescapes m t u) :
      Unescapes m (m.opener :: (inside ++ m.closer :: t)) (m.opener :: (inside ++ m.closer :: u))

/-- The balanced fragments without an escape outside brackets. -/
inductive Verbatim (m : Marks) : Text → Prop
  | nil : Verbatim m []
  | ordinary {c : Char} {t : Text} (hc : m.isBracketing c = false) (rest : Verbatim m t) :
      Verbatim m (c :: t)
  | bracket {inside t : Text} (hinside : Balanced m inside) (rest : Verbatim m t) :
      Verbatim m (m.opener :: (inside ++ m.closer :: t))

/-- A fragment inside a number of brackets. -/
def Marks.wrap (m : Marks) : Nat → Text → Text
  | 0, t => t
  | levels + 1, t => m.opener :: (m.wrap levels t ++ [m.closer])

variable {m : Marks} {b b' inside : Text}

lemma Balanced.unescapes (h : Balanced m b) : ∃ b', Unescapes m b b' := by
  induction h with
  | nil => exact ⟨[], .nil⟩
  | @ordinary c t hc rest ih =>
    obtain ⟨u, hu⟩ := ih
    exact ⟨c :: u, .ordinary hc hu⟩
  | @escaped c t rest ih =>
    obtain ⟨u, hu⟩ := ih
    cases hc : m.isEscapable c with
    | true => exact ⟨c :: u, .dropped hc hu⟩
    | false => exact ⟨m.escape :: c :: u, .kept hc hu⟩
  | @bracket inside t hinside rest ihinside ih =>
    obtain ⟨u, hu⟩ := ih
    exact ⟨m.opener :: (inside ++ m.closer :: u), .bracket hinside hu⟩

namespace Verbatim

lemma balanced (h : Verbatim m b) : Balanced m b := by
  induction h with
  | nil => exact .nil
  | ordinary hc rest ih => exact .ordinary hc ih
  | bracket hinside rest ih => exact .bracket hinside ih

lemma unescapes_self (h : Verbatim m b) : Unescapes m b b := by
  induction h with
  | nil => exact .nil
  | ordinary hc rest ih => exact .ordinary hc ih
  | bracket hinside rest ih => exact .bracket hinside ih

/-- Whatever escapes a fragment holds, a bracket around it takes them in. -/
lemma wrap (h : Verbatim m b) (levels : Nat) : Verbatim m (m.wrap levels b) := by
  induction levels with
  | zero => exact h
  | succ levels ih => exact .bracket ih.balanced .nil

end Verbatim

namespace Cursor

@[simp] lemma prepend_nil (read : LiteralRead) : prepend [] read = read := by
  cases read <;> rfl

@[simp] lemma prepend_prepend (cs ds : Text) (read : LiteralRead) :
    prepend cs (prepend ds read) = prepend (cs ++ ds) read := by
  cases read with
  | error e => rfl
  | ok r => simp [prepend, Except.map]

/-- Inside a nested bracket everything is read as it is written. -/
lemma bracket_balanced (h : Balanced m inside) (openedAt depth position : Nat) (rest : Text) :
    ∃ place, bracket m openedAt (depth + 1) position (inside ++ rest) =
      prepend inside (bracket m openedAt (depth + 1) place rest) := by
  induction h generalizing depth position rest with
  | nil => exact ⟨position, (prepend_nil _).symm⟩
  | @ordinary c t hc _ ih =>
    obtain ⟨place, hread⟩ := ih depth (position + 1) rest
    exact ⟨place, by rw [List.cons_append, bracket_ordinary m _ _ _ hc, hread, prepend_prepend]; rfl⟩
  | @escaped c t _ ih =>
    obtain ⟨place, hread⟩ := ih depth (position + 2) rest
    refine ⟨place, ?_⟩
    rw [List.cons_append, List.cons_append, bracket_escape, if_neg depth.succ_ne_zero, hread,
      prepend_prepend]
    rfl
  | @bracket inside t _ _ ihinside ih =>
    obtain ⟨within, hwithin⟩ := ihinside (depth + 1) (position + 1) (m.closer :: (t ++ rest))
    obtain ⟨place, hread⟩ := ih depth (within + 1) rest
    refine ⟨place, ?_⟩
    rw [List.cons_append, List.append_assoc, List.cons_append, bracket_opener, hwithin,
      bracket_inner_closer, hread]
    simp

/-- A bracket around a fragment is read to its closer. -/
lemma bracket_unescapes (h : Unescapes m b b') (openedAt position : Nat) (rest : Text) :
    ∃ place, bracket m openedAt 0 position (b ++ m.closer :: rest) = .ok (b', ⟨place, rest⟩) := by
  induction h generalizing position with
  | nil => exact ⟨position + 1, bracket_last_closer m openedAt position rest⟩
  | @ordinary c t u hc _ ih =>
    obtain ⟨place, hread⟩ := ih (position + 1)
    exact ⟨place, by rw [List.cons_append, bracket_ordinary m _ _ _ hc, hread, prepend_ok]; rfl⟩
  | @dropped c t u hc _ ih =>
    obtain ⟨place, hread⟩ := ih (position + 2)
    refine ⟨place, ?_⟩
    rw [List.cons_append, List.cons_append, bracket_escape, if_pos rfl, hread, prepend_ok,
      Marks.unescape_of_escapable hc]
    rfl
  | @kept c t u hc _ ih =>
    obtain ⟨place, hread⟩ := ih (position + 2)
    have hkept : m.unescape c = [m.escape, c] := by simp [Marks.unescape, hc]
    refine ⟨place, ?_⟩
    rw [List.cons_append, List.cons_append, bracket_escape, if_pos rfl, hread, prepend_ok, hkept]
    rfl
  | @bracket inside t u hinside _ ih =>
    obtain ⟨within, hwithin⟩ :=
      bracket_balanced hinside openedAt 0 (position + 1) (m.closer :: (t ++ m.closer :: rest))
    obtain ⟨place, hread⟩ := ih (within + 1)
    refine ⟨place, ?_⟩
    rw [List.cons_append, List.append_assoc, List.cons_append, bracket_opener, hwithin,
      bracket_inner_closer, hread]
    simp

end Cursor

/-- A bracket around a fragment is one literal and nothing else. -/
lemma TokenRun.ofText_bracketed (h : Unescapes m b b') :
    (ofText m (m.opener :: (b ++ [m.closer]))).Gives [.literal b'] := by
  obtain ⟨place, hread⟩ := Cursor.bracket_unescapes h 0 1 []
  have hstep := Cursor.step_opener m 0 (b ++ [m.closer])
  rw [hread] at hstep
  rw [ofText, Cursor.start, ofCursor_of_token hstep, ofCursor_of_done (Cursor.step_nil m place)]
  exact ⟨rfl, place, rfl⟩

/-- Brackets around a fragment are transparent: what is read from them is the fragment without the
escapes outside its own brackets, and the fragment itself if there are none. Then every further
bracket is taken off by one more reading. -/
theorem bracketed_transparent {es : List Text} (h : elements m b = .ok es) :
    ∃ b', (∀ u, Unescapes m b u ↔ u = b') ∧
      (TokenRun.ofText m (m.opener :: (b ++ [m.closer]))).Gives [.literal b'] ∧
      (Verbatim m b → b' = b ∧ ∀ levels,
        (TokenRun.ofText m (m.wrap (levels + 1) b)).Gives [.literal (m.wrap levels b)]) := by
  have hbalanced : Balanced m b := exists_elements_iff_balanced.mp ⟨es, h⟩
  obtain ⟨b', hb'⟩ := hbalanced.unescapes
  have hunique (u : Text) (hu : Unescapes m b u) : u = b' := by
    have hgives := (TokenRun.ofText_bracketed hu).1
    rw [(TokenRun.ofText_bracketed hb').1] at hgives
    simpa using hgives.symm
  refine ⟨b', fun u => ⟨hunique u, ?_⟩, TokenRun.ofText_bracketed hb', fun hverbatim => ?_⟩
  · rintro rfl
    exact hb'
  · refine ⟨(hunique b hverbatim.unescapes_self).symm, fun levels => ?_⟩
    exact TokenRun.ofText_bracketed (hverbatim.wrap levels).unescapes_self

/-- A fragment with escapes outside its bracket, one of them before a character that needs none, and
one with an escape inside its bracket alone. -/
theorem bracketed_transparent_escapes :
    let a : Text := ['\\', '=', '\\', 'n', '[', '\\', ']', ']']
    let b : Text := ['x', ' ', '[', 'a', '\\', ']', ']']
    (elements .standard a = .ok [['=', '\\', 'n'], [']']] ∧
      (TokenRun.ofText .standard ('[' :: (a ++ [']']))).Gives
        [.literal ['=', '\\', 'n', '[', '\\', ']', ']']]) ∧
    (elements .standard b = .ok [['x'], ['a', ']']] ∧ Verbatim .standard b ∧
      ∀ levels, (TokenRun.ofText .standard (Marks.standard.wrap (levels + 1) b)).Gives
        [.literal (Marks.standard.wrap levels b)]) := by
  intro a b
  have ha : elements .standard a = .ok [['=', '\\', 'n'], [']']] := by cbv
  have hb : elements .standard b = .ok [['x'], ['a', ']']] := by cbv
  have hunescapes : Unescapes .standard a ['=', '\\', 'n', '[', '\\', ']', ']'] :=
    .dropped (by decide) (.kept (by decide) (.bracket (.escaped ']' .nil) .nil))
  have hinside : Balanced .standard ['a', '\\', ']'] := .ordinary (by decide) (.escaped ']' .nil)
  have hverbatim : Verbatim .standard b :=
    .ordinary (by decide) (.ordinary (by decide) (.bracket hinside .nil))
  obtain ⟨u, hu, hgives, -⟩ := bracketed_transparent ha
  obtain rfl := (hu _).mp hunescapes
  obtain ⟨v, -, -, hnested⟩ := bracketed_transparent hb
  exact ⟨⟨ha, hgives⟩, hb, hverbatim, (hnested hverbatim).2⟩

end ParamLang
