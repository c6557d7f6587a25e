import ParamLang.Entry
import ParamLang.Proofs.Reading

/-! Fragments written with other marks. A bijection of characters that takes the marks of one set to
those of another, and keeps blanks and the characters of names, takes every reading under the first
set to the reading of the transcribed fragment under the second. -/
namespace ParamLang

/-- A bijection of characters under which the marks keep their roles. The braces of references are
the same under all marks. -/
structure Transcription (m m' : Marks) where
  char : Char ≃ Char
  opener : char m.opener = m'.opener
  closer : char m.closer = m'.closer
  separator : char m.separator = m'.separator
  escape : char m.escape = m'.escape
  sigil : char m.sigil = m'.sigil
  isBlank_char : ∀ c, Text.isBlank (char c) = Text.isBlank c
  isNameChar_char : ∀ c, isNameChar (char c) = isNameChar c
  leftBrace : char '{' = '{'
  rightBrace : char '}' = '}'

namespace Transcription

variable {m m' : Marks} (T : Transcription m m')

def text (t : Text) : Text := t.map T.char

@[simp] lemma text_nil : T.text [] = [] := rfl

@[simp] lemma text_cons (c : Char) (t : Text) : T.text (c :: t) = T.char c :: T.text t := rfl

@[simp] lemma text_append (t u : Text) : T.text (t ++ u) = T.text t ++ T.text u := List.map_append

lemma text_injective : Function.Injective T.text := T.char.injective.list_map

lemma excerpt_text (t : Text) (position : Nat) :
    (T.text t).excerpt position = T.text (t.excerpt position) := by
  simp [Text.excerpt, text, List.map_take, List.map_drop]

section marks

variable (c : Char)

@[simp] lemma char_eq_opener : T.char c = m'.opener ↔ c = m.opener := by
  rw [← T.opener, T.char.injective.eq_iff]

@[simp] lemma char_eq_closer : T.char c = m'.closer ↔ c = m.closer := by
  rw [← T.closer, T.char.injective.eq_iff]

@[simp] lemma char_eq_separator : T.char c = m'.separator ↔ c = m.separator := by
  rw [← T.separator, T.char.injective.eq_iff]

@[simp] lemma char_eq_escape : T.char c = m'.escape ↔ c = m.escape := by
  rw [← T.escape, T.char.injective.eq_iff]

@[simp] lemma char_eq_leftBrace : T.char c = '{' ↔ c = '{' := by
  rw [← T.char.injective.eq_iff (a := c), T.leftBrace]

@[simp] lemma isEscapable_char : m'.isEscapable (T.char c) = m.isEscapable c := by
  rw [Bool.eq_iff_iff]
  simp [Marks.isEscapable, T.isBlank_char]

lemma unescape_char : m'.unescape (T.char c) = T.text (m.unescape c) := by
  unfold Marks.unescape
  rw [T.isEscapable_char]
  split
  · rfl
  · simp [T.escape]

end marks

/-- The faults of scanning and of resolving, in which the fragment shows. -/
def fault : Fault → Fault
  | .misread kind position excerpt => .misread kind position (T.text excerpt)
  | .variableCycle name => .variableCycle (T.text name)
  | other => other

/-- A result under the other marks, where `value` transcribes what it holds. -/
def result {α : Type} (value : α → α) : Except Fault α → Except Fault α
  | .ok a => .ok (value a)
  | .error e => .error (T.fault e)

def cursor (c : Cursor) : Cursor := ⟨c.position, T.text c.rest⟩

def read (r : Cursor.LiteralRead) : Cursor.LiteralRead := r.map fun s => (T.text s.1, T.cursor s.2)

lemma read_prepend (cs : Text) (r : Cursor.LiteralRead) :
    T.read (Cursor.prepend cs r) = Cursor.prepend (T.text cs) (T.read r) := by
  cases r with
  | error misread => rfl
  | ok s => simp [read, Cursor.prepend, Except.map]

@[simp] lemma isBracketing_char (c : Char) : m'.isBracketing (T.char c) = m.isBracketing c := by
  rw [Bool.eq_iff_iff]
  simp [Marks.isBracketing]

lemma bare_text (position : Nat) (t : Text) :
    Cursor.bare m' position (T.text t) = T.read (Cursor.bare m position t) := by
  fun_induction Cursor.bare m position t with
  | case1 => rfl
  | case2 position c t hstop =>
    have hstop' : T.char c = m'.separator ∨ T.char c = m'.opener := by simpa using hstop
    rw [text_cons, Cursor.bare_stop m' position hstop']
    rfl
  | case3 position c t hstop hblank =>
    rw [text_cons, Cursor.bare_blank m' position ((T.isBlank_char c).trans hblank)]
    rfl
  | case4 position t hstop hblank =>
    rw [text_cons, T.closer, Cursor.bare_closer]
    rfl
  | case5 position hstop hblank hcloser =>
    rw [text_cons, T.escape, text_nil, Cursor.bare_last_escape]
    rfl
  | case6 position _ _ _ c t ih =>
    rw [read_prepend, ← ih, ← T.unescape_char, text_cons, text_cons, T.escape, Cursor.bare_escape]
  | case7 position c t hstop hblank hcloser hescape ih =>
    have hc : m.isEscapable c = false := by simp_all [Marks.isEscapable]
    rw [read_prepend, ← ih, text_cons,
      Cursor.bare_ordinary m' position ((T.isEscapable_char c).trans hc)]
    rfl

lemma bracket_text (openedAt depth position : Nat) (t : Text) :
    Cursor.bracket m' openedAt depth position (T.text t) =
      T.read (Cursor.bracket m openedAt depth position t) := by
  fun_induction Cursor.bracket m openedAt depth position t with
  | case1 => rfl
  | case2 depth position t ih =>
    rw [read_prepend, ← ih, text_cons, T.opener, Cursor.bracket_opener, text_cons, T.opener]
    rfl
  | case3 position t =>
    rw [text_cons, T.closer, Cursor.bracket_last_closer]
    rfl
  | case4 position t depth _ ih =>
    rw [read_prepend, ← ih, text_cons, T.closer, Cursor.bracket_inner_closer, text_cons, T.closer]
    rfl
  | case5 depth position =>
    rw [text_cons, T.escape, text_nil, Cursor.bracket_last_escape]
    rfl
  | case6 depth position c t _ _ ih =>
    rw [read_prepend, ← ih, text_cons, text_cons, T.escape, Cursor.bracket_escape, T.unescape_char]
    split <;> simp [T.escape]
  | case7 depth position c t hopener hcloser hescape ih =>
    have hc := Marks.isBracketing_eq_false_iff.mpr ⟨hopener, hcloser, hescape⟩
    rw [read_prepend, ← ih, text_cons,
      Cursor.bracket_ordinary m' openedAt depth position ((T.isBracketing_char c).trans hc)]
    rfl

lemma skipBlanks_text (position : Nat) (t : Text) :
    Cursor.skipBlanks position (T.text t) = T.cursor (Cursor.skipBlanks position t) := by
  induction t generalizing position with
  | nil => rfl
  | cons c t ih =>
    simp only [text_cons, Cursor.skipBlanks, T.isBlank_char, ih]
    split <;> rfl

def token : Token → Token
  | .literal t => .literal (T.text t)
  | .separator => .separator

def step : Cursor.Step → Cursor.Step
  | .token token after => .token (T.token token) (T.cursor after)
  | .done position => .done position
  | .broken misread => .broken misread

lemma ofLiteral_read (r : Cursor.LiteralRead) :
    Cursor.Step.ofLiteral (T.read r) = T.step (Cursor.Step.ofLiteral r) := by
  cases r <;> rfl

lemma step_cursor (c : Cursor) : Cursor.step m' (T.cursor c) = T.step (Cursor.step m c) := by
  simp only [Cursor.step, cursor, skipBlanks_text]
  generalize Cursor.skipBlanks c.position c.rest = c
  obtain ⟨position, _ | ⟨d, t⟩⟩ := c
  · rfl
  · simp only [Cursor.stepHere, text_cons, char_eq_separator, char_eq_opener]
    split
    · rfl
    · split
      · rw [bracket_text, ofLiteral_read]
      · rw [← text_cons, bare_text, ofLiteral_read]

def tokenRun (run : TokenRun) : TokenRun :=
  ⟨run.tokens.map fun t => (T.token t.1, t.2), run.ending⟩

lemma ofCursor_cursor (c : Cursor) :
    TokenRun.ofCursor m' (T.cursor c) = T.tokenRun (TokenRun.ofCursor m c) := by
  fun_induction TokenRun.ofCursor m c with
  | case1 c token after hstep _ ih =>
    have hstep' := (T.step_cursor c).trans (congrArg T.step hstep)
    rw [TokenRun.ofCursor_of_token hstep', ih]
    rfl
  | case2 c position hstep =>
    exact TokenRun.ofCursor_of_done ((T.step_cursor c).trans (congrArg T.step hstep))
  | case3 c misread hstep =>
    exact TokenRun.ofCursor_of_broken ((T.step_cursor c).trans (congrArg T.step hstep))

def entry : Entry → Entry
  | .value v => .value (T.text v)
  | .pair name v => .pair (T.text name) (T.text v)

def entryRun (run : EntryRun) : EntryRun := ⟨run.entries.map T.entry, run.misread⟩

lemma entryRun_isolated (policy : IsolatedPolicy) (value : Text) (position : Nat) (run : EntryRun) :
    T.entryRun (EntryRun.isolated policy value position run) =
      EntryRun.isolated policy (T.text value) position (T.entryRun run) := by
  cases policy <;> rfl

lemma assemble_tokens (policy : IsolatedPolicy) (ending : Except Misread Nat)
    (tokens : List (Token × Nat)) :
    EntryRun.assemble policy ending (tokens.map fun t => (T.token t.1, t.2)) =
      T.entryRun (EntryRun.assemble policy ending tokens) := by
  fun_induction EntryRun.assemble policy ending tokens with
  | case4 name p position hending =>
    subst hending
    rw [entryRun_isolated]
    rfl
  | case6 name p next position rest ih =>
    rw [entryRun_isolated, ← ih]
    rfl
  | case10 name p q value position rest ih =>
    rw [List.map_cons, List.map_cons, List.map_cons, token, token, token, EntryRun.assemble, ih]
    rfl
  | _ =>
    subst_vars
    rfl

/-- A transcribed fragment is scanned into the transcribed entries. -/
lemma scan_text (t : Text) : scan m' (T.text t) = T.result (List.map T.entry) (scan m t) := by
  have hrun : EntryRun.ofText .allowed m' (T.text t) =
      T.entryRun (EntryRun.ofText .allowed m t) := by
    have hcursor : TokenRun.ofText m' (T.text t) = T.tokenRun (TokenRun.ofText m t) :=
      T.ofCursor_cursor (.start t)
    rw [EntryRun.ofText, EntryRun.ofTokens, hcursor]
    exact T.assemble_tokens .allowed _ _
  simp only [scan, hrun]
  generalize EntryRun.ofText .allowed m t = run
  obtain ⟨entries, _ | misread⟩ := run
  · rfl
  · simp [entryRun, result, Misread.fault, fault, excerpt_text]

end Transcription

end ParamLang
