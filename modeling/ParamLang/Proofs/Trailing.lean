import ParamLang.Proofs.Blame

/-! Blanks behind a fragment. They change nothing in how it is read, except that one of them may be
taken by an escape at its end, which has nothing to take without them. -/
namespace ParamLang

variable {m : Marks} {t u : Text} {kind : Misreading}

namespace Cursor

variable {openedAt depth position place : Nat}

lemma prepend_eq_error {cs : Text} {read : LiteralRead} {misread : Misread}
    (h : prepend cs read = .error misread) : read = .error misread := by
  cases read with
  | error e => exact h
  | ok r => simp [prepend, Except.map] at h

/-- A bare literal that is broken by a closer is so whatever follows it. -/
lemma bare_append_broken (h : bare m position t = .error ⟨kind, place⟩)
    (hkind : kind ≠ .danglingEscape) (start : Nat) (u : Text) :
    ∃ q, bare m start (t ++ u) = .error ⟨kind, q⟩ := by
  fun_induction bare m position t generalizing start with
  | case1 => simp at h
  | case2 => simp at h
  | case3 => simp at h
  | case4 position t =>
    obtain ⟨rfl, -⟩ : .unmatchedCloser = kind ∧ position = place := by simpa using h
    exact ⟨start, bare_closer m start (t ++ u)⟩
  | case5 position =>
    obtain ⟨rfl, -⟩ : .danglingEscape = kind ∧ position = place := by simpa using h
    exact absurd rfl hkind
  | case6 position c t _ _ _ ih =>
    obtain ⟨q, hread⟩ := ih (prepend_eq_error h) (start + 2)
    exact ⟨q, by rw [List.cons_append, List.cons_append, bare_escape, hread]; rfl⟩
  | case7 position c t hstop hblank hcloser hescape ih =>
    obtain ⟨q, hread⟩ := ih (prepend_eq_error h) (start + 1)
    have hc : m.isEscapable c = false := by simp_all [Marks.isEscapable]
    exact ⟨q, by rw [List.cons_append, bare_ordinary m start hc, hread]; rfl⟩

lemma bracket_gap (hu : u.IsGap) (openedAt depth position : Nat) :
    bracket m openedAt depth position u = .error ⟨.unterminatedBracket, openedAt⟩ := by
  induction u generalizing position with
  | nil => rw [bracket]
  | cons c u ih =>
    have hc := Marks.isBracketing_of_blank (m := m) (hu c (by simp))
    rw [bracket_ordinary m _ _ _ hc, ih fun d hd => hu d (List.mem_cons_of_mem c hd)]
    rfl

/-- A bracket without a closer has none in blanks behind it either. -/
lemma bracket_append_gap (hu : u.IsGap)
    (h : bracket m openedAt depth position t = .error ⟨kind, place⟩)
    (hkind : kind ≠ .danglingEscape) (opened start : Nat) :
    ∃ q, bracket m opened depth start (t ++ u) = .error ⟨kind, q⟩ := by
  fun_induction bracket m openedAt depth position t generalizing start with
  | case1 depth position =>
    obtain ⟨rfl, -⟩ : .unterminatedBracket = kind ∧ openedAt = place := by simpa using h
    exact ⟨opened, bracket_gap hu opened depth start⟩
  | case2 depth position t ih =>
    obtain ⟨q, hread⟩ := ih (prepend_eq_error h) (start + 1)
    exact ⟨q, by rw [List.cons_append, bracket_opener, hread]; rfl⟩
  | case3 => simp at h
  | case4 position t depth _ ih =>
    obtain ⟨q, hread⟩ := ih (prepend_eq_error h) (start + 1)
    exact ⟨q, by rw [List.cons_append, bracket_inner_closer, hread]; rfl⟩
  | case5 depth position =>
    obtain ⟨rfl, -⟩ : .danglingEscape = kind ∧ position = place := by simpa using h
    exact absurd rfl hkind
  | case6 depth position c t _ _ ih =>
    obtain ⟨q, hread⟩ := ih (prepend_eq_error h) (start + 2)
    exact ⟨q, by rw [List.cons_append, List.cons_append, bracket_escape, hread]; rfl⟩
  | case7 depth position c t hopener hcloser hescape ih =>
    obtain ⟨q, hread⟩ := ih (prepend_eq_error h) (start + 1)
    have hc := Marks.isBracketing_eq_false_iff.mpr ⟨hopener, hcloser, hescape⟩
    exact ⟨q, by rw [List.cons_append, bracket_ordinary m _ _ _ hc, hread]; rfl⟩

lemma ofLiteral_eq_broken {read : LiteralRead} {misread : Misread}
    (h : Step.ofLiteral read = .broken misread) : read = .error misread := by
  cases read with
  | error e => exact congrArg Except.error (Step.broken.inj h)
  | ok r => cases h

/-- A misread token is misread in the same way with blanks behind the text, unless it lacks only
a character to escape. -/
lemma step_append_gap (hu : u.IsGap) (h : step m ⟨position, t⟩ = .broken ⟨kind, place⟩)
    (hkind : kind ≠ .danglingEscape) (start : Nat) :
    ∃ q, step m ⟨start, t ++ u⟩ = .broken ⟨kind, q⟩ := by
  revert h start
  refine step_induction (motive := fun _ t s => s = .broken ⟨kind, place⟩ → ∀ start,
    ∃ q, step m ⟨start, t ++ u⟩ = .broken ⟨kind, q⟩) ?nil ?blank ?separator ?opener ?bare position t
  case nil =>
    intro position h
    cases h
  case blank =>
    intro position c t hblank ih h start
    rw [List.cons_append, step_of_blank hblank]
    exact ih h (start + 1)
  case separator =>
    intro position t h
    cases h
  case opener =>
    intro position t h start
    obtain ⟨q, hread⟩ := bracket_append_gap hu (ofLiteral_eq_broken h) hkind start (start + 1)
    exact ⟨q, by rw [List.cons_append, step_opener, hread, Step.ofLiteral]⟩
  case bare =>
    intro position c t hs ho hblank h start
    obtain ⟨q, hread⟩ := bare_append_broken (ofLiteral_eq_broken h) hkind start u
    rw [List.cons_append] at hread
    exact ⟨q, by rw [List.cons_append, step_bare hs ho hblank, hread, Step.ofLiteral]⟩

end Cursor

namespace TokenRun

/-- What a run makes of a text and what another makes of it with something behind it: the same, or
the first run lacks a character to escape and the second goes on. -/
inductive Extends (run run' : TokenRun) : Prop
  | same (htokens : run'.tokens.map Prod.fst = run.tokens.map Prod.fst)
      (hfault : run'.fault? = run.fault?)
  | further (more : List Token)
      (htokens : run'.tokens.map Prod.fst = run.tokens.map Prod.fst ++ more)
      (hfault : run.fault? = some .danglingEscape)

variable {run run' : TokenRun} {tokens tokens' : List (Token × Nat)} {tok : Token} {p : Nat}
  {ending ending' : Except Misread Nat}

lemma Extends.push (h : Extends run run') (tok : Token) (p q : Nat) :
    Extends (run.push tok p) (run'.push tok q) := by
  cases h with
  | same htokens hfault => exact .same (congrArg (tok :: ·) htokens) hfault
  | further more htokens hfault => exact .further more (congrArg (tok :: ·) htokens) hfault

/-- Blanks behind a text add nothing to its run, or else end the escape it ends with. -/
lemma extends_gap (hu : u.IsGap) (c : Cursor) (start : Nat) :
    Extends (ofCursor m c) (ofCursor m ⟨start, c.rest ++ u⟩) := by
  have hends : Cursor.EndsBare m u := by
    have happend := Cursor.endsBare_gap_append (m := m) (t := []) hu trivial
    rwa [List.append_nil] at happend
  fun_induction ofCursor m c generalizing start with
  | case1 c token after hstep _ ih =>
    obtain ⟨next, hnext, place, hrun⟩ := Cursor.step_append hends hstep start
    rw [ofCursor_of_token hnext, hrun]
    exact (ih place).push token after.position next.position
  | case2 c position hstep =>
    have hgap := Cursor.isGap_of_step_done hstep
    rw [ofCursor_gap hgap, ← List.append_nil u, ofCursor_gap hu,
      ofCursor_of_done (Cursor.step_nil m _)]
    exact .same rfl rfl
  | case3 c misread hstep =>
    obtain ⟨kind, place⟩ := misread
    obtain rfl | hkind := eq_or_ne kind .danglingEscape
    · exact .further _ rfl rfl
    · obtain ⟨q, hbroken⟩ := Cursor.step_append_gap hu hstep hkind start
      rw [ofCursor_of_broken hbroken]
      exact .same rfl rfl

lemma Extends.of_cons (h : Extends ⟨(tok, p) :: tokens, ending⟩ ⟨tokens', ending'⟩) :
    ∃ q rest, tokens' = (tok, q) :: rest ∧ Extends ⟨tokens, ending⟩ ⟨rest, ending'⟩ := by
  cases h with
  | same htokens hfault =>
    obtain ⟨⟨_, q⟩, rest, rfl, rfl, hrest⟩ := List.map_eq_cons_iff.mp htokens
    exact ⟨q, rest, rfl, .same hrest hfault⟩
  | further more htokens hfault =>
    obtain ⟨⟨_, q⟩, rest, rfl, rfl, hrest⟩ := List.map_eq_cons_iff.mp htokens
    exact ⟨q, rest, rfl, .further more hrest hfault⟩

lemma Extends.of_done (h : Extends ⟨[], .ok p⟩ ⟨tokens', ending'⟩) :
    tokens' = [] ∧ ∃ q, ending' = .ok q := by
  cases h with
  | same htokens hfault =>
    refine ⟨List.map_eq_nil_iff.mp htokens, ?_⟩
    cases ending' with
    | ok q => exact ⟨q, rfl⟩
    | error misread => cases hfault
  | further more htokens hfault => cases hfault

lemma Extends.of_broken {misread : Misread}
    (h : Extends ⟨[], .error misread⟩ ⟨tokens', ending'⟩) :
    misread.kind = .danglingEscape ∨ tokens' = [] ∧ ∃ q, ending' = .error ⟨misread.kind, q⟩ := by
  cases h with
  | same htokens hfault =>
    refine .inr ⟨List.map_eq_nil_iff.mp htokens, ?_⟩
    cases ending' with
    | ok q => cases hfault
    | error found =>
      obtain ⟨kind, q⟩ := found
      obtain rfl : kind = misread.kind := Option.some.inj hfault
      exact ⟨q, rfl⟩
  | further more htokens hfault => exact .inl (Option.some.inj hfault)

end TokenRun

namespace EntryRun

open TokenRun

/-- Two assemblies give the same entries and end alike, or the first lacks a character to escape. -/
inductive Resembles (run run' : EntryRun) : Prop
  | same (hentries : run'.entries = run.entries)
      (hkind : run'.misread.map Misread.kind = run.misread.map Misread.kind)
  | dangling (hkind : run.misread.map Misread.kind = some .danglingEscape)

variable {policy : IsolatedPolicy} {run run' : EntryRun} {tokens tokens' : List (Token × Nat)}
  {ending ending' : Except Misread Nat}

lemma Resembles.push (h : Resembles run run') (e : Entry) :
    Resembles (run.push e) (run'.push e) := by
  cases h with
  | same hentries hkind => exact .same (congrArg (e :: ·) hentries) hkind
  | dangling hkind => exact .dangling hkind

lemma Resembles.isolated (h : Resembles run run') (value : Text) (p q : Nat) :
    Resembles (isolated policy value p run) (isolated policy value q run') := by
  cases policy with
  | allowed => exact h.push (.value value)
  | forbidden => exact .same rfl rfl

/-- Entries depend on the kinds of tokens only, and so does what is wrong with them. -/
lemma assemble_resembles (h : Extends ⟨tokens, ending⟩ ⟨tokens', ending'⟩) :
    Resembles (assemble policy ending tokens) (assemble policy ending' tokens') := by
  fun_induction assemble policy ending tokens generalizing tokens' with
  | case1 position hending =>
    subst hending
    obtain ⟨rfl, q, rfl⟩ := h.of_done
    exact .same rfl rfl
  | case2 misread hending =>
    subst hending
    obtain hkind | ⟨rfl, q, rfl⟩ := h.of_broken
    · exact .dangling (congrArg some hkind)
    · exact .same rfl rfl
  | case3 position =>
    obtain ⟨q, rest, rfl, -⟩ := h.of_cons
    exact .same rfl rfl
  | case4 name p position hending =>
    subst hending
    obtain ⟨q, rest, rfl, hrest⟩ := h.of_cons
    obtain ⟨rfl, fin, rfl⟩ := hrest.of_done
    exact Resembles.isolated (.same rfl rfl) name position fin
  | case5 name p misread hending =>
    subst hending
    obtain ⟨q, rest, rfl, hrest⟩ := h.of_cons
    obtain hkind | ⟨rfl, fin, rfl⟩ := hrest.of_broken
    · exact .dangling (congrArg some hkind)
    · exact .same rfl rfl
  | case6 name p next position rest ih =>
    obtain ⟨q, tail, rfl, htail⟩ := h.of_cons
    obtain ⟨place, others, rfl, -⟩ := htail.of_cons
    exact (ih htail).isolated name position place
  | case7 name p q position hending =>
    subst hending
    obtain ⟨_, tail, rfl, htail⟩ := h.of_cons
    obtain ⟨_, rest, rfl, hrest⟩ := htail.of_cons
    obtain ⟨rfl, fin, rfl⟩ := hrest.of_done
    exact .same rfl rfl
  | case8 name p q misread hending =>
    subst hending
    obtain ⟨_, tail, rfl, htail⟩ := h.of_cons
    obtain ⟨_, rest, rfl, hrest⟩ := htail.of_cons
    obtain hkind | ⟨rfl, fin, rfl⟩ := hrest.of_broken
    · exact .dangling (congrArg some hkind)
    · exact .same rfl rfl
  | case9 name p q position rest =>
    obtain ⟨_, tail, rfl, htail⟩ := h.of_cons
    obtain ⟨_, second, rfl, hsecond⟩ := htail.of_cons
    obtain ⟨_, others, rfl, -⟩ := hsecond.of_cons
    exact .same rfl rfl
  | case10 name p q value position rest ih =>
    obtain ⟨_, tail, rfl, htail⟩ := h.of_cons
    obtain ⟨_, second, rfl, hsecond⟩ := htail.of_cons
    obtain ⟨_, others, rfl, hothers⟩ := hsecond.of_cons
    exact (ih hothers).push (.pair name value)

end EntryRun

/-- Two fragments give the same entries, or faults of the same kind. -/
inductive SameReading : Except Fault (List Entry) → Except Fault (List Entry) → Prop
  | entries (es : List Entry) : SameReading (.ok es) (.ok es)
  | fault (kind : Misreading) (p q : Nat) (shown shown' : Text) :
      SameReading (.error (.misread kind p shown)) (.error (.misread kind q shown'))

/-- Blanks behind a fragment change nothing in what it reads as, unless it is broken by an escape
without a character, for which one of them may do. -/
lemma scan_append_gap (hu : u.IsGap) : SameReading (scan m (t ++ u)) (scan m t) ∨
    ∃ position shown, scan m t = .error (.misread .danglingEscape position shown) := by
  have hextends : TokenRun.Extends (.ofText m t) (.ofText m (t ++ u)) :=
    TokenRun.extends_gap hu (.start t) 0
  have hresembles : EntryRun.Resembles (.ofText .allowed m t) (.ofText .allowed m (t ++ u)) :=
    EntryRun.assemble_resembles hextends
  simp only [scan]
  cases hmisread : (EntryRun.ofText .allowed m t).misread with
  | none =>
    cases hresembles with
    | same hentries hkind =>
      rw [hmisread, Option.map_none, Option.map_eq_none_iff] at hkind
      rw [hkind, hentries]
      exact .inl (.entries _)
    | dangling hkind => simp [hmisread] at hkind
  | some misread =>
    obtain ⟨kind, p⟩ := misread
    cases hresembles with
    | same hentries hkind =>
      rw [hmisread, Option.map_some, Option.map_eq_some_iff] at hkind
      obtain ⟨⟨_, q⟩, hfound, rfl⟩ := hkind
      rw [hfound]
      exact .inl (.fault _ _ _ _ _)
    | dangling hkind =>
      obtain rfl : kind = .danglingEscape := by simpa [hmisread] using hkind
      exact .inr ⟨p, _, rfl⟩

lemma endsEscaped_of_scan {position : Nat} {shown : Text}
    (h : scan m t = .error (.misread .danglingEscape position shown)) : m.endsEscaped t = true := by
  obtain ⟨kind, p, s, hfault, hpoints⟩ := scan_points h
  obtain ⟨rfl, rfl, rfl⟩ : .danglingEscape = kind ∧ position = p ∧ shown = s := by
    simpa using hfault
  have hblames := hpoints.blames
  generalize hfront : t.take position = front, hrest : t.drop position = rest at hblames
  cases hblames with
  | danglingEscape hescaped =>
    rw [← List.take_append_drop position t, hfront, hrest, m.endsEscaped_append hescaped]
    exact m.endsEscaped_last_escape

lemma scan_append_gap_of_not_endsEscaped (hu : u.IsGap) (h : m.endsEscaped t = false) :
    SameReading (scan m (t ++ u)) (scan m t) := by
  obtain hsame | ⟨position, shown, hscan⟩ := scan_append_gap (m := m) (t := t) hu
  · exact hsame
  · exact absurd (endsEscaped_of_scan hscan) (by simp [h])

/-- No fragment can be read that ends with an escape without a character. -/
lemma scan_of_endsEscaped (h : m.endsEscaped t = true) : ∃ fault, scan m t = .error fault := by
  cases hscan : scan m t with
  | error fault => exact ⟨fault, rfl⟩
  | ok es =>
    obtain ⟨-, position, hending⟩ := scan_eq_ok_iff.mp hscan
    have hfault : (TokenRun.ofText m t).fault? = m.bracketFault? 0 t := TokenRun.fault?_ofCursor m _
    rw [TokenRun.fault?, hending] at hfault
    have hbalanced : Balanced m t := balanced_iff_bracketFault?.mpr hfault.symm
    exact absurd hbalanced.endsEscaped (by simp [h])

end ParamLang
