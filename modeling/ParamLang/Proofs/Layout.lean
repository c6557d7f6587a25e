import ParamLang.Entry
import ParamLang.Proofs.Reading

/-! Layouts: the texts in which entries may be written. Each literal is bracketed or bare, and
blanks may stand around every token. A layout reads back as the tokens it was written from, so
scanning gives the entries back in whatever way they are written. -/
namespace ParamLang

namespace Marks

variable {m : Marks} {c : Char}

/-- A text without brackets, with every character escaped that would not stand for itself. -/
def bareForm (m : Marks) (t : Text) : Text :=
  t.flatMap fun c => if m.isEscapable c then [m.escape, c] else [c]

lemma bareForm_cons_of_escapable (h : m.isEscapable c = true) (t : Text) :
    m.bareForm (c :: t) = m.escape :: c :: m.bareForm t := by
  simp [bareForm, h]

lemma bareForm_cons_of_ordinary (h : m.isEscapable c = false) (t : Text) :
    m.bareForm (c :: t) = c :: m.bareForm t := by
  simp [bareForm, h]

lemma quoteBody_cons_of_bracketing (h : m.isBracketing c = true) (t : Text) :
    m.quoteBody (c :: t) = m.escape :: c :: m.quoteBody t := by
  simp [quoteBody, h]

lemma quoteBody_cons_of_ordinary (h : m.isBracketing c = false) (t : Text) :
    m.quoteBody (c :: t) = c :: m.quoteBody t := by
  simp [quoteBody, h]

lemma quote_append (m : Marks) (t rest : Text) :
    m.quote t ++ rest = m.opener :: (m.quoteBody t ++ m.closer :: rest) := by
  simp [quote]

end Marks

/-- Any number of blanks. -/
def Text.IsGap (t : Text) : Prop := ∀ c ∈ t, isBlank c = true

lemma Text.isGap_nil : IsGap [] := fun _ hc => nomatch hc

/-- The tokens that an entry is written with. -/
def Entry.tokens : Entry → List Token
  | value v => [.literal v]
  | pair name v => [.literal name, .separator, .literal v]

/-- The texts that tokens may be written as. Two bare literals need a gap between them, so it is
noted whether a bare literal stands right before the text. -/
inductive Layout (m : Marks) : Bool → List Token → Text → Prop
  | blank {afterBare : Bool} {gap : Text} (hgap : gap.IsGap) : Layout m afterBare [] gap
  | separator {afterBare : Bool} {gap text : Text} {tokens : List Token} (hgap : gap.IsGap)
      (tail : Layout m false tokens text) :
      Layout m afterBare (.separator :: tokens) (gap ++ m.separator :: text)
  | bracketed {afterBare : Bool} {gap text : Text} {tokens : List Token} (t : Text)
      (hgap : gap.IsGap) (tail : Layout m false tokens text) :
      Layout m afterBare (.literal t :: tokens) (gap ++ (m.quote t ++ text))
  | bare {afterBare : Bool} {gap text : Text} {tokens : List Token} (t : Text) (ht : t ≠ [])
      (hgap : gap.IsGap) (apart : afterBare = true → gap ≠ []) (tail : Layout m true tokens text) :
      Layout m afterBare (.literal t :: tokens) (gap ++ (m.bareForm t ++ text))

namespace TokenRun

/-- A run of the given tokens that ends at the end of the fragment. -/
def Gives (run : TokenRun) (tokens : List Token) : Prop :=
  run.tokens.map Prod.fst = tokens ∧ ∃ position, run.ending = .ok position

lemma Gives.push {run : TokenRun} {tokens : List Token} (h : run.Gives tokens) (token : Token)
    (position : Nat) : (run.push token position).Gives (token :: tokens) :=
  ⟨by simp [TokenRun.push, h.1], h.2⟩

lemma ofCursor_gap {m : Marks} {gap : Text} (h : gap.IsGap) (position : Nat) (t : Text) :
    ofCursor m ⟨position, gap ++ t⟩ = ofCursor m ⟨position + gap.length, t⟩ := by
  induction gap generalizing position with
  | nil => rfl
  | cons c gap ih =>
    rw [List.cons_append, ofCursor_of_blank (h c (by simp)), ih (fun d hd => h d (by simp [hd])),
      List.length_cons]
    congr 2
    omega

end TokenRun

namespace Cursor

/-- A quoted text is read up to the closer of its bracket. -/
lemma bracket_quoteBody (m : Marks) (openedAt position : Nat) (t rest : Text) :
    bracket m openedAt 0 position (m.quoteBody t ++ m.closer :: rest) =
      .ok (t, ⟨position + (m.quoteBody t).length + 1, rest⟩) := by
  induction t generalizing position with
  | nil => exact bracket_last_closer m openedAt position rest
  | cons c t ih =>
    cases hc : m.isBracketing c with
    | true =>
      have hu := Marks.unescape_of_escapable (Marks.isEscapable_of_bracketing hc)
      rw [Marks.quoteBody_cons_of_bracketing hc]
      simp only [List.cons_append, bracket_escape, if_true, hu, ih, prepend_ok, List.nil_append,
        List.length_cons]
      congr 3
      omega
    | false =>
      rw [Marks.quoteBody_cons_of_ordinary hc]
      simp only [List.cons_append, bracket_ordinary _ _ _ _ hc, ih, prepend_ok, List.nil_append,
        List.length_cons]
      congr 3
      omega

/-- The texts that end a bare literal before them. -/
def EndsBare (m : Marks) : Text → Prop
  | [] => True
  | c :: _ => (c = m.separator ∨ c = m.opener) ∨ Text.isBlank c = true

lemma endsBare_gap_append {m : Marks} {gap t : Text} (hgap : gap.IsGap) (ht : EndsBare m t) :
    EndsBare m (gap ++ t) := by
  cases gap with
  | nil => exact ht
  | cons c gap => exact .inr (hgap c (by simp))

/-- What ends a bare literal is left for the next reading. A blank is read too, which changes
nothing for the rest of the run. -/
lemma bare_endsBare {m : Marks} {rest : Text} (hrest : EndsBare m rest) (position : Nat) :
    ∃ after, bare m position rest = .ok ([], after) ∧
      TokenRun.ofCursor m after = TokenRun.ofCursor m ⟨position, rest⟩ := by
  cases rest with
  | nil => exact ⟨⟨position, []⟩, rfl, rfl⟩
  | cons c rest =>
    obtain hstop | hblank := hrest
    · exact ⟨_, bare_stop m position hstop rest, rfl⟩
    · exact ⟨_, bare_blank m position hblank rest,
        (TokenRun.ofCursor_of_blank hblank position rest).symm⟩

/-- A bare form is read to its end. -/
lemma bare_bareForm {m : Marks} {rest : Text} (hrest : EndsBare m rest) (position : Nat)
    (t : Text) : ∃ after, bare m position (m.bareForm t ++ rest) = .ok (t, after) ∧
      TokenRun.ofCursor m after =
        TokenRun.ofCursor m ⟨position + (m.bareForm t).length, rest⟩ := by
  induction t generalizing position with
  | nil => exact bare_endsBare hrest position
  | cons c t ih =>
    cases hc : m.isEscapable c with
    | true =>
      obtain ⟨after, hread, hrun⟩ := ih (position + 2)
      rw [Marks.bareForm_cons_of_escapable hc]
      refine ⟨after, ?_, ?_⟩
      · simp only [List.cons_append, bare_escape, hread, Marks.unescape_of_escapable hc, prepend_ok,
          List.nil_append]
      · rw [hrun, List.length_cons, List.length_cons]
        congr 2
        omega
    | false =>
      obtain ⟨after, hread, hrun⟩ := ih (position + 1)
      rw [Marks.bareForm_cons_of_ordinary hc]
      refine ⟨after, ?_, ?_⟩
      · simp only [List.cons_append, bare_ordinary m position hc, hread, prepend_ok,
          List.nil_append]
      · rw [hrun, List.length_cons]
        congr 2
        omega

/-- A bare form begins a bare literal, whatever its first character is. -/
lemma step_bareForm (m : Marks) (position : Nat) {t : Text} (ht : t ≠ []) (rest : Text) :
    step m ⟨position, m.bareForm t ++ rest⟩ =
      .ofLiteral (bare m position (m.bareForm t ++ rest)) := by
  obtain ⟨c, t, rfl⟩ := List.exists_cons_of_ne_nil ht
  cases hc : m.isEscapable c with
  | true =>
    rw [Marks.bareForm_cons_of_escapable hc]
    exact step_bare m.escape_ne_separator m.escape_ne_opener m.escape_not_blank position _
  | false =>
    rw [Marks.bareForm_cons_of_ordinary hc]
    simp only [Marks.isEscapable, Bool.or_eq_false_iff, beq_eq_false_iff_ne] at hc
    exact step_bare hc.1.1.2 hc.1.1.1.1 hc.2 position _

end Cursor

namespace Layout

variable {m : Marks} {afterBare : Bool} {tokens : List Token} {text : Text}

/-- Whatever may follow a bare literal ends it. -/
lemma endsBare (h : Layout m true tokens text) : Cursor.EndsBare m text := by
  cases h with
  | blank hgap =>
    rw [← List.append_nil text]
    exact Cursor.endsBare_gap_append hgap trivial
  | separator hgap tail => exact Cursor.endsBare_gap_append hgap (.inl (.inl rfl))
  | bracketed t hgap tail => exact Cursor.endsBare_gap_append hgap (.inl (.inr rfl))
  | @bare _ gap _ _ t ht hgap apart tail =>
    obtain ⟨c, gap, rfl⟩ := List.exists_cons_of_ne_nil (apart rfl)
    exact .inr (hgap c (by simp))

/-- A layout reads back as its tokens, wherever it stands. -/
lemma run_gives (h : Layout m afterBare tokens text) (position : Nat) :
    (TokenRun.ofCursor m ⟨position, text⟩).Gives tokens := by
  induction h generalizing position with
  | @blank _ gap hgap =>
    rw [← List.append_nil gap, TokenRun.ofCursor_gap hgap,
      TokenRun.ofCursor_of_done (Cursor.step_nil m _)]
    exact ⟨rfl, _, rfl⟩
  | separator hgap tail ih =>
    rw [TokenRun.ofCursor_gap hgap, TokenRun.ofCursor_of_token (Cursor.step_separator m _ _)]
    exact (ih _).push _ _
  | @bracketed _ gap text tokens t hgap tail ih =>
    have hstep := Cursor.step_opener m (position + gap.length) (m.quoteBody t ++ m.closer :: text)
    rw [Cursor.bracket_quoteBody] at hstep
    rw [TokenRun.ofCursor_gap hgap, Marks.quote_append, TokenRun.ofCursor_of_token hstep]
    exact (ih _).push _ _
  | @bare _ gap text tokens t ht hgap apart tail ih =>
    obtain ⟨after, hread, hrun⟩ := Cursor.bare_bareForm tail.endsBare (position + gap.length) t
    have hstep := Cursor.step_bareForm m (position + gap.length) ht text
    rw [hread] at hstep
    rw [TokenRun.ofCursor_gap hgap, TokenRun.ofCursor_of_token hstep, hrun]
    exact (ih _).push _ _

/-- The elements of a layout are what its tokens stand for. -/
lemma elements_eq (h : Layout m afterBare tokens text) :
    elements m text = .ok (tokens.map (Token.element m)) := by
  obtain ⟨htokens, position, hending⟩ := h.run_gives 0
  simp only [elements, TokenRun.ofText, Cursor.start, hending, ← htokens, List.map_map]
  rfl

/-- A quoted text may be added to any layout after a space. -/
lemma append_quote (h : Layout m afterBare tokens text) (value : Text) :
    Layout m afterBare (tokens ++ [.literal value]) (text ++ ' ' :: m.quote value) := by
  induction h with
  | @blank _ gap hgap =>
    have hspace : Text.IsGap (gap ++ [' ']) := by
      intro c hc
      obtain hc | hc := List.mem_append.mp hc
      · exact hgap c hc
      · exact List.mem_singleton.mp hc ▸ Text.isBlank_space
    simpa using Layout.bracketed (m := m) value hspace (.blank Text.isGap_nil)
  | separator hgap tail ih =>
    simpa using Layout.separator hgap ih
  | bracketed t hgap tail ih =>
    simpa using Layout.bracketed t hgap ih
  | bare t ht hgap apart tail ih =>
    simpa using Layout.bare t ht hgap apart ih

end Layout

namespace EntryRun

variable (position : Nat)

/-- A literal without a separator after it is a value. -/
lemma assemble_value (v : Text) (p : Nat) {rest : List (Token × Nat)}
    (h : (rest.map Prod.fst).head? ≠ some .separator) :
    assemble .allowed (.ok position) ((.literal v, p) :: rest) =
      (assemble .allowed (.ok position) rest).push (.value v) := by
  match rest, h with
  | [], _ => simp [assemble, isolated]
  | (.literal next, q) :: rest, _ => simp [assemble, isolated]
  | (.separator, q) :: rest, h => exact absurd rfl h

lemma assemble_pair (name v : Text) (p q r : Nat) (rest : List (Token × Nat)) :
    assemble .allowed (.ok position)
        ((.literal name, p) :: (.separator, q) :: (.literal v, r) :: rest) =
      (assemble .allowed (.ok position) rest).push (.pair name v) := by
  rw [assemble]

/-- No entry begins with a separator. -/
lemma head?_flatMap_tokens (entries : List Entry) :
    (entries.flatMap Entry.tokens).head? ≠ some .separator := by
  match entries with
  | [] => simp
  | .value v :: _ => simp [Entry.tokens]
  | .pair name v :: _ => simp [Entry.tokens]

/-- Entries are assembled from the tokens that they are written with. -/
lemma assemble_tokens (entries : List Entry) {tokens : List (Token × Nat)}
    (h : tokens.map Prod.fst = entries.flatMap Entry.tokens) :
    assemble .allowed (.ok position) tokens = ⟨entries, none⟩ := by
  induction entries generalizing tokens with
  | nil =>
    obtain rfl : tokens = [] := by simpa using h
    rfl
  | cons e es ih =>
    cases e with
    | value v =>
      obtain ⟨⟨t, p⟩, rest, rfl, ht, hrest⟩ := List.map_eq_cons_iff.mp h
      obtain rfl : t = .literal v := ht
      rw [assemble_value position v p (hrest ▸ head?_flatMap_tokens es), ih hrest]
      rfl
    | pair name v =>
      obtain ⟨⟨t, p⟩, rest, rfl, ht, h⟩ := List.map_eq_cons_iff.mp h
      obtain ⟨⟨t', q⟩, rest, rfl, ht', h⟩ := List.map_eq_cons_iff.mp h
      obtain ⟨⟨t'', r⟩, rest, rfl, ht'', hrest⟩ := List.map_eq_cons_iff.mp h
      obtain rfl : t = .literal name := ht
      obtain rfl : t' = .separator := ht'
      obtain rfl : t'' = .literal v := ht''
      rw [assemble_pair, ih hrest]
      rfl

end EntryRun

/-- Scanning undoes writing, in every layout of the entries. -/
theorem scan_layout {m : Marks} {entries : List Entry} {text : Text}
    (h : Layout m false (entries.flatMap Entry.tokens) text) : scan m text = .ok entries := by
  obtain ⟨htokens, position, hending⟩ := h.run_gives 0
  have hassembled := EntryRun.assemble_tokens position entries htokens
  simp only [scan, EntryRun.ofText, EntryRun.ofTokens, TokenRun.ofText, Cursor.start, hending,
    hassembled]

/-- Bare and bracketed literals side by side, with characters that mean something else elsewhere. -/
theorem scan_layout_mixed :
    let entries : List Entry := [.value ['a', ' '], .pair ['='] ['='], .value [], .value ['c']]
    let text : Text := [' ', 'a', '\\', ' ', '[', '=', ']', '=', '\\', '=', '[', ']', 'c']
    Layout .standard false (entries.flatMap Entry.tokens) text ∧
      scan .standard text = .ok entries := by
  intro entries text
  have one : Text.IsGap [' '] := by simp [Text.IsGap, Text.isBlank_space]
  have h : Layout .standard false (entries.flatMap Entry.tokens) text := by
    refine .bare ['a', ' '] (by simp) one (by simp) ?_
    refine .bracketed ['='] Text.isGap_nil ?_
    refine .separator Text.isGap_nil ?_
    refine .bare ['='] (by simp) Text.isGap_nil (by simp) ?_
    refine .bracketed [] Text.isGap_nil ?_
    refine .bare ['c'] (by simp) Text.isGap_nil (by simp) ?_
    exact .blank Text.isGap_nil
  exact ⟨h, scan_layout h⟩

end ParamLang
