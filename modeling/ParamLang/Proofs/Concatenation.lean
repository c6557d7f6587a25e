import ParamLang.Registry.Basic
import ParamLang.Proofs.Layout

/-! Fragments one after the other. A gap between two fragments that can be read ends whatever
literal the first one ends with, so nothing is carried over it: the whole reads as the entries of
both, and interpreting it is interpreting one after the other. -/
namespace ParamLang

namespace Cursor

variable {m : Marks} {openedAt depth position : Nat} {t s u : Text} {after : Cursor} {tok : Token}

/-- A bare literal is read alike wherever it stands and whatever ends it. -/
lemma bare_append (hu : EndsBare m u) (h : bare m position t = .ok (s, after)) (start : Nat) :
    ∃ next, bare m start (t ++ u) = .ok (s, next) ∧
      ∃ place, TokenRun.ofCursor m next = TokenRun.ofCursor m ⟨place, after.rest ++ u⟩ := by
  fun_induction bare m position t generalizing s start with
  | case1 position =>
    -- The literal ends with the text, so what follows the text is met here.
    obtain ⟨rfl, rfl⟩ : [] = s ∧ ⟨position, []⟩ = after := by simpa using h
    obtain ⟨next, hread, hrun⟩ := bare_endsBare hu start
    exact ⟨next, hread, start, hrun⟩
  | case2 position c t hstop =>
    obtain ⟨rfl, rfl⟩ : [] = s ∧ ⟨position, c :: t⟩ = after := by simpa using h
    exact ⟨_, bare_stop m start hstop (t ++ u), start, rfl⟩
  | case3 position c t _ hblank =>
    obtain ⟨rfl, rfl⟩ : [] = s ∧ ⟨position + 1, t⟩ = after := by simpa using h
    exact ⟨_, bare_blank m start hblank (t ++ u), start + 1, rfl⟩
  | case4 => simp at h
  | case5 => simp at h
  | case6 position _ _ _ c t ih =>
    obtain ⟨s, hs, rfl⟩ := prepend_eq_ok h
    obtain ⟨next, hread, hrun⟩ := ih hs (start + 2)
    refine ⟨next, ?_, hrun⟩
    rw [List.cons_append, List.cons_append, bare_escape, hread, prepend_ok]
  | case7 position c t hstop hblank hcloser hescape ih =>
    obtain ⟨s, hs, rfl⟩ := prepend_eq_ok h
    obtain ⟨next, hread, hrun⟩ := ih hs (start + 1)
    have hc : m.isEscapable c = false := by simp_all [Marks.isEscapable]
    refine ⟨next, ?_, hrun⟩
    rw [List.cons_append, bare_ordinary m start hc, hread, prepend_ok]

/-- A bracket is read alike wherever it stands and whatever follows its closer. -/
lemma bracket_append (h : bracket m openedAt depth position t = .ok (s, after)) (opened start : Nat)
    (u : Text) :
    ∃ place, bracket m opened depth start (t ++ u) = .ok (s, ⟨place, after.rest ++ u⟩) := by
  fun_induction bracket m openedAt depth position t generalizing s start with
  | case1 => simp at h
  | case2 depth position t ih =>
    obtain ⟨s, hs, rfl⟩ := prepend_eq_ok h
    obtain ⟨place, hread⟩ := ih hs (start + 1)
    exact ⟨place, by rw [List.cons_append, bracket_opener, hread, prepend_ok]⟩
  | case3 position t =>
    obtain ⟨rfl, rfl⟩ : [] = s ∧ ⟨position + 1, t⟩ = after := by simpa using h
    exact ⟨start + 1, bracket_last_closer m opened start (t ++ u)⟩
  | case4 position t depth _ ih =>
    obtain ⟨s, hs, rfl⟩ := prepend_eq_ok h
    obtain ⟨place, hread⟩ := ih hs (start + 1)
    exact ⟨place, by rw [List.cons_append, bracket_inner_closer, hread, prepend_ok]⟩
  | case5 => simp at h
  | case6 depth position c t _ _ ih =>
    obtain ⟨s, hs, rfl⟩ := prepend_eq_ok h
    obtain ⟨place, hread⟩ := ih hs (start + 2)
    exact ⟨place, by rw [List.cons_append, List.cons_append, bracket_escape, hread, prepend_ok]⟩
  | case7 depth position c t hopener hcloser hescape ih =>
    obtain ⟨s, hs, rfl⟩ := prepend_eq_ok h
    obtain ⟨place, hread⟩ := ih hs (start + 1)
    have hc := Marks.isBracketing_eq_false_iff.mpr ⟨hopener, hcloser, hescape⟩
    exact ⟨place, by rw [List.cons_append, bracket_ordinary m opened depth start hc, hread, prepend_ok]⟩

lemma ofLiteral_eq_token {read : LiteralRead} (h : Step.ofLiteral read = .token tok after) :
    ∃ s, read = .ok (s, after) ∧ tok = .literal s := by
  cases read with
  | error e => simp [Step.ofLiteral] at h
  | ok r =>
    obtain ⟨s, next⟩ := r
    simp only [Step.ofLiteral, Step.token.injEq] at h
    exact ⟨s, by rw [h.2], h.1.symm⟩

/-- A token is read alike wherever it stands, if what follows the text ends a bare literal. -/
lemma step_append (hu : EndsBare m u) (h : step m ⟨position, t⟩ = .token tok after) (start : Nat) :
    ∃ next, step m ⟨start, t ++ u⟩ = .token tok next ∧
      ∃ place, TokenRun.ofCursor m next = TokenRun.ofCursor m ⟨place, after.rest ++ u⟩ := by
  revert h start
  refine step_induction (motive := fun _ t s => s = .token tok after → ∀ start,
    ∃ next, step m ⟨start, t ++ u⟩ = .token tok next ∧ ∃ place,
      TokenRun.ofCursor m next = TokenRun.ofCursor m ⟨place, after.rest ++ u⟩)
    ?nil ?blank ?separator ?opener ?bare position t
  case nil =>
    intro position h
    simp at h
  case blank =>
    intro position c t hblank ih h start
    rw [List.cons_append, step_of_blank hblank]
    exact ih h (start + 1)
  case separator =>
    intro position t h start
    obtain ⟨rfl, rfl⟩ : .separator = tok ∧ ⟨position + 1, t⟩ = after := by simpa using h
    exact ⟨_, step_separator m start (t ++ u), start + 1, rfl⟩
  case opener =>
    intro position t h start
    obtain ⟨s, hread, rfl⟩ := ofLiteral_eq_token h
    obtain ⟨place, hbracket⟩ := bracket_append hread start (start + 1) u
    exact ⟨_, by rw [List.cons_append, step_opener, hbracket, Step.ofLiteral], place, rfl⟩
  case bare =>
    intro position c t hs ho hblank h start
    obtain ⟨s, hread, rfl⟩ := ofLiteral_eq_token h
    obtain ⟨next, hbare, hrun⟩ := bare_append hu hread start
    rw [List.cons_append] at hbare
    exact ⟨next, by rw [List.cons_append, step_bare hs ho hblank, hbare, Step.ofLiteral], hrun⟩

lemma ofLiteral_ne_done (read : LiteralRead) (fin : Nat) : Step.ofLiteral read ≠ .done fin := by
  cases read <;> simp [Step.ofLiteral]

/-- Nothing but blanks is left when a reading is done. -/
lemma isGap_of_step_done {fin : Nat} (h : step m ⟨position, t⟩ = .done fin) : t.IsGap := by
  revert h
  refine step_induction (motive := fun _ t s => s = .done fin → t.IsGap)
    ?nil ?blank ?separator ?opener ?bare position t
  case nil => exact fun _ _ => Text.isGap_nil
  case blank =>
    intro position c t hblank ih h d hd
    obtain rfl | hd := List.mem_cons.mp hd
    · exact hblank
    · exact ih h d hd
  case separator =>
    intro position t h
    simp at h
  case opener => exact fun position t h => absurd h (ofLiteral_ne_done _ fin)
  case bare => exact fun position c t _ _ _ h => absurd h (ofLiteral_ne_done _ fin)

end Cursor

namespace TokenRun

variable {m : Marks} {t u gap : Text} {tokens tokens' : List Token}

lemma gives_push_iff {run : TokenRun} {token : Token} {position : Nat} :
    (run.push token position).Gives tokens ↔ ∃ rest, tokens = token :: rest ∧ run.Gives rest := by
  constructor
  · rintro ⟨htokens, hending⟩
    exact ⟨run.tokens.map Prod.fst, htokens.symm, rfl, hending⟩
  · rintro ⟨rest, rfl, h⟩
    exact h.push token position

/-- The tokens of a text stay the same in front of a text that ends a bare literal. -/
lemma gives_append {c : Cursor} (hu : Cursor.EndsBare m u) (h : (ofCursor m c).Gives tokens)
    (hrest : ∀ place, (ofCursor m ⟨place, u⟩).Gives tokens') (start : Nat) :
    (ofCursor m ⟨start, c.rest ++ u⟩).Gives (tokens ++ tokens') := by
  fun_induction ofCursor m c generalizing tokens start with
  | case1 c token after hstep _ ih =>
    obtain ⟨rest, rfl, hafter⟩ := gives_push_iff.mp h
    obtain ⟨next, hnext, place, hrun⟩ := Cursor.step_append hu hstep start
    rw [ofCursor_of_token hnext, hrun]
    exact (ih hafter place).push token next.position
  | case2 c position hstep =>
    obtain rfl : [] = tokens := h.1
    rw [ofCursor_gap (Cursor.isGap_of_step_done hstep)]
    exact hrest _
  | case3 c misread hstep =>
    obtain ⟨_, position, hending⟩ := h
    simp at hending

/-- The tokens of a text do not depend on where it stands. -/
lemma Gives.moved {position : Nat} (h : (ofCursor m ⟨position, t⟩).Gives tokens) (start : Nat) :
    (ofCursor m ⟨start, t⟩).Gives tokens := by
  have hnil (place : Nat) : (ofCursor m ⟨place, []⟩).Gives [] := by
    rw [ofCursor_of_done (Cursor.step_nil m place)]
    exact ⟨rfl, place, rfl⟩
  have hends : Cursor.EndsBare m [] := trivial
  have happend := gives_append hends h hnil start
  rwa [List.append_nil, List.append_nil] at happend

lemma ofText_append_gap (ht : (ofText m t).Gives tokens) (hu : (ofText m u).Gives tokens')
    (hgap : gap.IsGap) (hne : gap ≠ []) : (ofText m (t ++ gap ++ u)).Gives (tokens ++ tokens') := by
  have hends : Cursor.EndsBare m (gap ++ u) := by
    obtain ⟨c, rest, rfl⟩ := List.exists_cons_of_ne_nil hne
    exact .inr (hgap c (by simp))
  -- The gap is skipped, and so the second text is read at a place of no importance.
  have hrest (place : Nat) : (ofCursor m ⟨place, gap ++ u⟩).Gives tokens' := by
    rw [ofCursor_gap hgap]
    exact Gives.moved hu _
  rw [List.append_assoc]
  exact gives_append hends ht hrest 0

end TokenRun

namespace EntryRun

variable {policy : IsolatedPolicy} {ending : Except Misread Nat} {run : EntryRun} {es : List Entry}

lemma push_eq_iff {e : Entry} :
    run.push e = ⟨es, none⟩ ↔ ∃ rest, run = ⟨rest, none⟩ ∧ es = e :: rest := by
  obtain ⟨entries, misread⟩ := run
  simp only [push, EntryRun.mk.injEq]
  constructor
  · rintro ⟨rfl, rfl⟩
    exact ⟨entries, ⟨rfl, rfl⟩, rfl⟩
  · rintro ⟨rest, ⟨rfl, rfl⟩, rfl⟩
    exact ⟨rfl, rfl⟩

lemma push_of_isolated {value : Text} {position : Nat}
    (h : isolated policy value position run = ⟨es, none⟩) : run.push (.value value) = ⟨es, none⟩ := by
  cases policy with
  | allowed => exact h
  | forbidden => simp [isolated, stopped] at h

lemma stopped_ne (misread : Misread) : stopped misread ≠ ⟨es, none⟩ := by simp [stopped]

/-- Entries that are assembled without a fault are written with the tokens they come from. -/
lemma tokens_of_assemble {tokens : List (Token × Nat)}
    (h : assemble policy ending tokens = ⟨es, none⟩) :
    (∃ position, ending = .ok position) ∧ tokens.map Prod.fst = es.flatMap Entry.tokens := by
  fun_induction assemble policy ending tokens generalizing es with
  | case1 position hending =>
    obtain rfl : [] = es := by simpa using h
    exact ⟨⟨position, hending⟩, rfl⟩
  | case4 name p position hending =>
    obtain ⟨rest, hrest, rfl⟩ := push_eq_iff.mp (push_of_isolated h)
    obtain rfl : [] = rest := by simpa using hrest
    exact ⟨⟨position, hending⟩, rfl⟩
  | case6 name p next position rest ih =>
    obtain ⟨es, hes, rfl⟩ := push_eq_iff.mp (push_of_isolated h)
    obtain ⟨hending, htokens⟩ := ih hes
    refine ⟨hending, ?_⟩
    rw [List.map_cons, htokens, List.flatMap_cons]
    rfl
  | case10 name p q value position rest ih =>
    obtain ⟨es, hes, rfl⟩ := push_eq_iff.mp h
    obtain ⟨hending, htokens⟩ := ih hes
    refine ⟨hending, ?_⟩
    rw [List.map_cons, List.map_cons, List.map_cons, htokens, List.flatMap_cons]
    rfl
  | _ => exact absurd h (stopped_ne _) -- all other cases are stopped by a fault

end EntryRun

lemma scan_eq_ok_iff {m : Marks} {t : Text} {es : List Entry} :
    scan m t = .ok es ↔ (TokenRun.ofText m t).Gives (es.flatMap Entry.tokens) := by
  constructor
  · intro h
    have hrun : EntryRun.ofText .allowed m t = ⟨es, none⟩ := by
      simp only [scan] at h
      cases hmisread : (EntryRun.ofText .allowed m t).misread with
      | some misread => simp [hmisread] at h
      | none =>
        simp only [hmisread, Except.ok.injEq] at h
        rw [← h, ← hmisread]
    obtain ⟨hending, htokens⟩ := EntryRun.tokens_of_assemble hrun
    exact ⟨htokens, hending⟩
  · rintro ⟨htokens, position, hending⟩
    have hassembled := EntryRun.assemble_tokens position es htokens
    simp only [scan, EntryRun.ofText, EntryRun.ofTokens, hending, hassembled]

lemma Interpret.entries_append (s : Settings) (levels : Nat) (chain : List Text)
    (es es' : List Entry) (m : Memory) : entries s levels chain (es ++ es') m =
      (entries s levels chain es m).andThen (entries s levels chain es') := by
  cases levels with
  | zero => exact Outcome.each_append _ es es' m
  | succ levels => exact Outcome.each_append _ es es' m

/-- Fragments with a gap between them scan into the entries of both. Parsing them as one is parsing
the first and, if nothing went wrong in it, then the second on what it leaves. -/
theorem Registry.parse_append {m : Marks} {a gap b : Text} {es es' : List Entry}
    (ha : scan m a = .ok es) (hb : scan m b = .ok es') (hgap : gap.IsGap) (hne : gap ≠ []) :
    scan m (a ++ gap ++ b) = .ok (es ++ es') ∧
      ∀ r : Registry, r.settings.marks = m → r.parse (a ++ gap ++ b) =
        (r.parse a).andThen fun memory => ({ r with memory } : Registry).parse b := by
  have hscan : scan m (a ++ gap ++ b) = .ok (es ++ es') := by
    have htokens := TokenRun.ofText_append_gap (scan_eq_ok_iff.mp ha) (scan_eq_ok_iff.mp hb) hgap hne
    rw [scan_eq_ok_iff, List.flatMap_append]
    exact htokens
  refine ⟨hscan, ?_⟩
  rintro r rfl
  simp only [parse, hscan, ha, hb, Outcome.attempt]
  exact Interpret.entries_append r.settings r.settings.maxDepth [] es es' r.memory

/-- An escaped escape right before the gap, and an empty name right after it. -/
theorem Registry.parse_append_seam :
    let a : Text := ['x', '=', 'a', '\\', '\\']
    let gap : Text := [' ', '\n']
    let b : Text := ['[', ']', '=', 'c']
    let r : Registry := ⟨.standard, ⟨[.mandatory], .ofList [(['x'], 0)], ∅, none⟩⟩
    scan .standard (a ++ gap ++ b) = .ok [.pair ['x'] ['a', '\\'], .pair [] ['c']] ∧
      (r.parse (a ++ gap ++ b) =
          (r.parse a).andThen fun memory => ({ r with memory } : Registry).parse b) ∧
      (r.parse (a ++ gap ++ b)).fault = some (.undefinedParameter []) := by
  intro a gap b r
  have ha : scan .standard a = .ok [.pair ['x'] ['a', '\\']] := by cbv
  have hb : scan .standard b = .ok [.pair [] ['c']] := by cbv
  have hgap : gap.IsGap := by simp [gap, Text.IsGap, Text.isBlank_space, Text.isBlank_lineFeed]
  have hfault : (r.parse (a ++ gap ++ b)).fault = some (.undefinedParameter []) := by cbv
  obtain ⟨hscan, hparse⟩ := parse_append ha hb hgap (by simp [gap])
  exact ⟨hscan, hparse r rfl, hfault⟩

end ParamLang
