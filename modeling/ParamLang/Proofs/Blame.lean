import ParamLang.Proofs.Concatenation
import ParamLang.Proofs.Wrapping

/-! What the fault of a fragment points at. Its position is that of a character in the fragment, the
one that the fault is to be blamed on, and what it shows of the fragment begins there. -/
namespace ParamLang

namespace Marks

/-- Whether a text ends with an escape that takes no character along. -/
def endsEscaped (m : Marks) : Text → Bool
  | [] => false
  | c :: t =>
    if c = m.escape then
      match t with
      | [] => true
      | _ :: t => m.endsEscaped t
    else m.endsEscaped t

variable (m : Marks)

@[simp] lemma endsEscaped_nil : m.endsEscaped [] = false := by
  rw [endsEscaped.eq_def]

@[simp] lemma endsEscaped_last_escape : m.endsEscaped [m.escape] = true := by
  rw [endsEscaped.eq_def]
  simp

@[simp] lemma endsEscaped_escape (c : Char) (t : Text) :
    m.endsEscaped (m.escape :: c :: t) = m.endsEscaped t := by
  rw [endsEscaped.eq_def]
  simp

lemma endsEscaped_cons_of_ne {c : Char} (h : c ≠ m.escape) (t : Text) :
    m.endsEscaped (c :: t) = m.endsEscaped t := by
  rw [endsEscaped.eq_def]
  simp [h]

/-- Where no escape is left over, what follows is read from its beginning. -/
lemma endsEscaped_append {front : Text} (h : m.endsEscaped front = false) (t : Text) :
    m.endsEscaped (front ++ t) = m.endsEscaped t := by
  fun_induction m.endsEscaped front with
  | case1 => rfl
  | case2 => simp at h
  | case3 c front ih => rw [List.cons_append, List.cons_append, endsEscaped_escape, ih h]
  | case4 c front hc ih => rw [List.cons_append, m.endsEscaped_cons_of_ne hc, ih h]

end Marks

namespace Balanced

variable {m : Marks} {t gap : Text}

lemma of_isGap (h : gap.IsGap) : Balanced m gap := by
  induction gap with
  | nil => exact .nil
  | cons c gap ih =>
    refine .ordinary (Marks.isBracketing_of_blank (h c (by simp))) ?_
    exact ih fun d hd => h d (List.mem_cons_of_mem c hd)

lemma endsEscaped (h : Balanced m t) : m.endsEscaped t = false := by
  induction h with
  | nil => exact m.endsEscaped_nil
  | ordinary hc rest ih =>
    rwa [m.endsEscaped_cons_of_ne (Marks.isBracketing_eq_false_iff.mp hc).2.2]
  | escaped c rest ih => rwa [m.endsEscaped_escape]
  | bracket hinside rest ihinside ih =>
    rwa [m.endsEscaped_cons_of_ne m.escape_ne_opener.symm, m.endsEscaped_append ihinside,
      m.endsEscaped_cons_of_ne m.escape_ne_closer.symm]

end Balanced

/-- The bracket that is open in front of a text has no closer in it. -/
def NeverClosed (m : Marks) (t : Text) : Prop :=
  ∀ inside rest, Balanced m inside → t ≠ inside ++ m.closer :: rest

/-- What is to be blamed for a fault is the first character of a text, given what is before it: a
closer or separator outside brackets, an opener there whose bracket is never closed, an escape that
nothing follows, and where a value is missing, a second separator, or else the last character. -/
inductive Blames (m : Marks) : Misreading → Text → Text → Prop
  | unmatchedCloser {before : Text} (h : Balanced m before) (rest : Text) :
      Blames m .unmatchedCloser before (m.closer :: rest)
  | unterminatedBracket {before rest : Text} (h : Balanced m before) (hrest : NeverClosed m rest) :
      Blames m .unterminatedBracket before (m.opener :: rest)
  | danglingEscape {before : Text} (h : m.endsEscaped before = false) :
      Blames m .danglingEscape before [m.escape]
  | misplacedSeparator {before : Text} (h : Balanced m before) (rest : Text) :
      Blames m .misplacedSeparator before (m.separator :: rest)
  | secondSeparator {before gap : Text} (h : Balanced m before) (hgap : gap.IsGap) (rest : Text) :
      Blames m .danglingSeparator (before ++ m.separator :: gap) (m.separator :: rest)
  | lastCharacter {before gap front : Text} {c : Char} (h : Balanced m before) (hgap : gap.IsGap)
      (hlast : before ++ m.separator :: gap = front ++ [c]) :
      Blames m .danglingSeparator front [c]
  | isolatedValue (before : Text) (c : Char) (rest : Text) :
      Blames m .isolatedValue before (c :: rest)

variable {m : Marks} {t : Text} {kind : Misreading} {front before rest : Text}

lemma Blames.ne_nil (h : Blames m kind before rest) : rest ≠ [] := by
  cases h <;> simp

/-- Blame does not depend on what has been read before. -/
lemma Blames.prepend (hfront : Balanced m front) (h : Blames m kind before rest) :
    Blames m kind (front ++ before) rest := by
  cases h with
  | unmatchedCloser h rest => exact .unmatchedCloser (hfront.append h) rest
  | unterminatedBracket h hrest => exact .unterminatedBracket (hfront.append h) hrest
  | danglingEscape h => exact .danglingEscape (by rwa [m.endsEscaped_append hfront.endsEscaped])
  | misplacedSeparator h rest => exact .misplacedSeparator (hfront.append h) rest
  | secondSeparator h hgap rest =>
    rw [← List.append_assoc]
    exact .secondSeparator (hfront.append h) hgap rest
  | lastCharacter h hgap hlast =>
    refine .lastCharacter (hfront.append h) hgap ?_
    rw [List.append_assoc, List.append_assoc, hlast]
  | isolatedValue before c rest => exact .isolatedValue (front ++ before) c rest

namespace Cursor

/-- Reading has gone on over a part of the fragment in which brackets balance. -/
structure Passes (m : Marks) (c : Cursor) (front : Text) (after : Cursor) : Prop where
  balanced : Balanced m front
  rest_eq : c.rest = front ++ after.rest
  position_eq : after.position = c.position + front.length

/-- A misreading is blamed on a character that is not yet read. -/
def Blamed (m : Marks) (c : Cursor) (misread : Misread) : Prop :=
  ∃ front rest, c.rest = front ++ rest ∧ misread.position = c.position + front.length ∧
    Blames m misread.kind front rest

variable {c after : Cursor} {misread : Misread} {position openedAt depth : Nat} {s : Text}
  {tok : Token}

lemma passes (h : Balanced m front) (position : Nat) (t : Text) :
    Passes m ⟨position, front ++ t⟩ front ⟨position + front.length, t⟩ :=
  ⟨h, rfl, rfl⟩

lemma Passes.trans {next : Cursor} {back : Text} (h : Passes m c front next)
    (h' : Passes m next back after) : Passes m c (front ++ back) after where
  balanced := h.balanced.append h'.balanced
  rest_eq := by rw [h.rest_eq, h'.rest_eq, List.append_assoc]
  position_eq := by rw [h'.position_eq, h.position_eq, List.length_append, Nat.add_assoc]

lemma Blamed.of_passes (hpasses : Passes m c front after) (h : Blamed m after misread) :
    Blamed m c misread := by
  obtain ⟨before, rest, hrest, hposition, hblames⟩ := h
  refine ⟨front ++ before, rest, ?_, ?_, hblames.prepend hpasses.balanced⟩
  · rw [hpasses.rest_eq, hrest, List.append_assoc]
  · rw [hposition, hpasses.position_eq, List.length_append, Nat.add_assoc]

/-- What reading comes to: it goes on over a balanced part, or a character ahead is to blame. -/
def Traced (m : Marks) (c : Cursor) : LiteralRead → Prop
  | .ok (_, after) => ∃ front, Passes m c front after
  | .error misread => Blamed m c misread

lemma Traced.prepend {read : LiteralRead} (hpasses : Passes m c front after)
    (h : Traced m after read) (cs : Text) : Traced m c (prepend cs read) := by
  cases read with
  | error misread => exact h.of_passes hpasses
  | ok r =>
    obtain ⟨back, hback⟩ := h
    exact ⟨front ++ back, hpasses.trans hback⟩

/-- A bare literal is broken by a closer, or by an escape at the end of the fragment. -/
lemma bare_traced (m : Marks) (position : Nat) (t : Text) :
    Traced m ⟨position, t⟩ (bare m position t) := by
  fun_induction bare m position t with
  | case1 position => exact ⟨[], passes .nil position []⟩
  | case2 position c t => exact ⟨[], passes .nil position (c :: t)⟩
  | case3 position c t _ hblank =>
    have hc : Balanced m [c] := .ordinary (Marks.isBracketing_of_blank hblank) .nil
    exact ⟨[c], passes hc position t⟩
  | case4 position t => exact ⟨[], _, rfl, rfl, .unmatchedCloser .nil t⟩
  | case5 position => exact ⟨[], _, rfl, rfl, .danglingEscape m.endsEscaped_nil⟩
  | case6 position c t _ _ _ ih =>
    have hescaped : Balanced m [m.escape, c] := .escaped c .nil
    exact ih.prepend (passes hescaped position t) _
  | case7 position c t hstop _ hcloser hescape ih =>
    have hopener : c ≠ m.opener := fun ho => hstop (.inr ho)
    have hc : Balanced m [c] :=
      .ordinary (Marks.isBracketing_eq_false_iff.mpr ⟨hopener, hcloser, hescape⟩) .nil
    exact ih.prepend (passes hc position t) _

/-- How a bracket is broken: by the end of the fragment, which may stand behind an escape. -/
inductive Breaks (m : Marks) (openedAt : Nat) : Nat → Text → Misread → Prop
  | unterminated (position : Nat) (t : Text) :
      Breaks m openedAt position t ⟨.unterminatedBracket, openedAt⟩
  | escaped {front : Text} (h : m.endsEscaped front = false) (position : Nat) :
      Breaks m openedAt position (front ++ [m.escape]) ⟨.danglingEscape, position + front.length⟩

lemma Breaks.prepend (hfront : m.endsEscaped front = false)
    (h : Breaks m openedAt (position + front.length) t misread) :
    Breaks m openedAt position (front ++ t) misread := by
  cases h with
  | unterminated => exact .unterminated position _
  | @escaped inside hinside =>
    have hescaped : m.endsEscaped (front ++ inside) = false := by
      rwa [m.endsEscaped_append hfront]
    have hbreaks : Breaks m openedAt position (front ++ inside ++ [m.escape])
        ⟨.danglingEscape, position + (front ++ inside).length⟩ := .escaped hescaped position
    rwa [List.append_assoc, List.length_append, ← Nat.add_assoc] at hbreaks

/-- What reading a bracket comes to: it closes all that is open, or it is broken. -/
def BracketTraced (m : Marks) (openedAt depth position : Nat) (t : Text) : LiteralRead → Prop
  | .ok (_, after) => ∃ front, Closes m (depth + 1) front ∧ t = front ++ after.rest
  | .error misread => Breaks m openedAt position t misread

lemma BracketTraced.prepend {inner : Nat} {read : LiteralRead}
    (hfront : m.endsEscaped front = false)
    (hcloses : ∀ u, Closes m (inner + 1) u → Closes m (depth + 1) (front ++ u))
    (h : BracketTraced m openedAt inner (position + front.length) t read) (cs : Text) :
    BracketTraced m openedAt depth position (front ++ t) (prepend cs read) := by
  cases read with
  | error misread => exact Breaks.prepend hfront h
  | ok r =>
    obtain ⟨u, hu, rfl⟩ := h
    exact ⟨front ++ u, hcloses u hu, (List.append_assoc front u _).symm⟩

lemma bracket_ends (m : Marks) (openedAt depth position : Nat) (t : Text) :
    BracketTraced m openedAt depth position t (bracket m openedAt depth position t) := by
  have hsingle {c : Char} (hc : c ≠ m.escape) : m.endsEscaped [c] = false := by
    rw [m.endsEscaped_cons_of_ne hc, m.endsEscaped_nil]
  fun_induction bracket m openedAt depth position t with
  | case1 _ position => exact .unterminated position []
  | case2 depth position t ih =>
    exact ih.prepend (hsingle m.escape_ne_opener.symm) (fun _ h => h.opener) _
  | case3 position t => exact ⟨[m.closer], .closer .nil (.balanced .nil), rfl⟩
  | case4 position t depth _ ih =>
    exact ih.prepend (hsingle m.escape_ne_closer.symm) (fun _ h => .closer .nil h) _
  | case5 depth position => exact .escaped m.endsEscaped_nil position
  | case6 depth position c t _ _ ih =>
    exact ih.prepend (m.endsEscaped_escape c []) (fun _ h => h.escaped c) _
  | case7 depth position c t hopener hcloser hescape ih =>
    have hc := Marks.isBracketing_eq_false_iff.mpr ⟨hopener, hcloser, hescape⟩
    exact ih.prepend (hsingle hescape) (fun _ h => h.ordinary hc) _

/-- A bracket takes in a balanced part of the fragment, its opener included. One that breaks has no
closer, or else the fragment ends behind an escape. -/
lemma bracket_traced (m : Marks) (position : Nat) (t : Text) :
    Traced m ⟨position, m.opener :: t⟩ (bracket m position 0 (position + 1) t) := by
  have hends := bracket_ends m position 0 (position + 1) t
  cases hread : bracket m position 0 (position + 1) t with
  | ok r =>
    rw [hread] at hends
    obtain ⟨s, after⟩ := r
    obtain ⟨front, hcloses, rfl⟩ := hends
    refine ⟨m.opener :: front, hcloses.opener.balanced_of_zero, rfl, ?_⟩
    have hspans := (bracket_spans hread).1
    simp only [total, List.length_append, List.length_cons] at hspans ⊢
    omega
  | error misread =>
    rw [hread] at hends
    cases hends with
    | unterminated =>
      refine ⟨[], _, rfl, rfl, .unterminatedBracket .nil ?_⟩
      rintro inside rest hinside rfl
      obtain ⟨u, hu⟩ := hinside.unescapes
      obtain ⟨place, hclosed⟩ := bracket_unescapes hu position (position + 1) rest
      rw [hread] at hclosed
      cases hclosed
    | @escaped front hfront =>
      have hopened : m.endsEscaped (m.opener :: front) = false := by
        rwa [m.endsEscaped_cons_of_ne m.escape_ne_opener.symm]
      refine ⟨m.opener :: front, _, rfl, ?_, .danglingEscape hopened⟩
      simp only [List.length_cons]
      omega

/-- What a step comes to. It is done only at the end of the fragment. -/
def Step.Traced (m : Marks) (c : Cursor) : Step → Prop
  | .token _ after => ∃ front, Passes m c front after
  | .done fin => fin = c.total
  | .broken misread => Blamed m c misread

lemma Step.Traced.of_passes {s : Step} (hpasses : Passes m c front after)
    (h : s.Traced m after) : s.Traced m c := by
  cases s with
  | token tok next =>
    obtain ⟨back, hback⟩ := h
    exact ⟨front ++ back, hpasses.trans hback⟩
  | done fin =>
    have htotal : fin = after.total := h
    rw [Step.Traced, htotal, total, total, hpasses.position_eq, hpasses.rest_eq, List.length_append,
      Nat.add_assoc]
  | broken misread => exact Blamed.of_passes hpasses h

lemma Traced.ofLiteral {read : LiteralRead} (h : Traced m c read) :
    (Step.ofLiteral read).Traced m c := by
  cases read <;> exact h

lemma step_traced (m : Marks) (position : Nat) (t : Text) :
    (step m ⟨position, t⟩).Traced m ⟨position, t⟩ := by
  refine step_induction (motive := fun position t s => s.Traced m ⟨position, t⟩)
    ?nil ?blank ?separator ?opener ?bare position t
  case nil => exact fun position => rfl
  case blank =>
    intro position c t hblank ih
    have hc : Balanced m [c] := .ordinary (Marks.isBracketing_of_blank hblank) .nil
    exact ih.of_passes (passes hc position t)
  case separator =>
    intro position t
    have hseparator : Balanced m [m.separator] := .ordinary m.isBracketing_separator .nil
    exact ⟨_, passes hseparator position t⟩
  case opener => exact fun position t => (bracket_traced m position t).ofLiteral
  case bare => exact fun position c t _ _ _ => (bare_traced m position (c :: t)).ofLiteral

lemma step_passes (h : step m c = .token tok after) : ∃ front, Passes m c front after := by
  have htraced := step_traced m c.position c.rest
  rwa [h] at htraced

lemma step_blamed (h : step m c = .broken misread) : Blamed m c misread := by
  have htraced := step_traced m c.position c.rest
  rwa [h] at htraced

lemma total_of_step_done {fin : Nat} (h : step m c = .done fin) : fin = c.total := by
  have htraced := step_traced m c.position c.rest
  rwa [h] at htraced

/-- Nothing but blanks is skipped before a separator. -/
lemma gap_of_step_separator (h : step m ⟨position, t⟩ = .token .separator after) :
    ∃ gap, gap.IsGap ∧ t = gap ++ m.separator :: after.rest := by
  revert h
  refine step_induction (motive := fun _ t s => s = .token .separator after →
    ∃ gap, gap.IsGap ∧ t = gap ++ m.separator :: after.rest)
    ?nil ?blank ?separator ?opener ?bare position t
  case nil =>
    intro position h
    cases h
  case blank =>
    intro position c t hblank ih h
    obtain ⟨gap, hgap, rfl⟩ := ih h
    exact ⟨c :: gap, List.forall_mem_cons.mpr ⟨hblank, hgap⟩, rfl⟩
  case separator =>
    intro position t h
    obtain ⟨-, rfl⟩ := Step.token.inj h
    exact ⟨[], Text.isGap_nil, rfl⟩
  case opener =>
    intro position t h
    obtain ⟨s, -, hseparator⟩ := ofLiteral_eq_token h
    cases hseparator
  case bare =>
    intro position c t _ _ _ h
    obtain ⟨s, -, hseparator⟩ := ofLiteral_eq_token h
    cases hseparator

/-- Any character that is not yet read may show that a value has no name. -/
lemma blamed_isolated {place : Nat} (h : c.position < place) (hplace : place ≤ c.total) :
    Blamed m c ⟨.isolatedValue, place - 1⟩ := by
  simp only [total] at hplace
  have hrest : c.rest.drop (place - 1 - c.position) ≠ [] := by
    rw [Ne, List.drop_eq_nil_iff]
    omega
  obtain ⟨d, rest, hd⟩ := List.exists_cons_of_ne_nil hrest
  refine ⟨c.rest.take (place - 1 - c.position), d :: rest, ?_, ?_, .isolatedValue _ d rest⟩
  · rw [← hd, List.take_append_drop]
  · rw [List.length_take]
    change place - 1 = _
    omega

/-- A separator where an entry should begin is to blame itself. -/
lemma blamed_misplaced (h : step m c = .token .separator after) :
    Blamed m c ⟨.misplacedSeparator, after.position - 1⟩ := by
  obtain ⟨gap, hgap, hrest⟩ := gap_of_step_separator h
  have hspans := (step_spans h).1
  refine ⟨gap, _, hrest, ?_, .misplacedSeparator (.of_isGap hgap) after.rest⟩
  simp only [total, hrest, List.length_append, List.length_cons] at hspans ⊢
  omega

/-- A second separator is to blame where a value should stand. -/
lemma blamed_second {next : Cursor} (h : step m c = .token .separator next)
    (h' : step m next = .token .separator after) :
    Blamed m c ⟨.danglingSeparator, after.position - 1⟩ := by
  obtain ⟨before, hbefore, hrest⟩ := gap_of_step_separator h
  obtain ⟨gap, hgap, hrest'⟩ := gap_of_step_separator h'
  have hspans := (step_spans h).1
  have hspans' := (step_spans h').1
  refine ⟨before ++ m.separator :: gap, m.separator :: after.rest, ?_, ?_,
    .secondSeparator (.of_isGap hbefore) hgap after.rest⟩
  · rw [hrest, hrest', List.append_assoc, List.cons_append]
  · simp only [total, hrest, hrest', List.length_append, List.length_cons] at hspans hspans' ⊢
    omega

/-- Where the fragment ends instead of a value, its last character is to blame. -/
lemma blamed_last {next : Cursor} {fin : Nat} (h : step m c = .token .separator next)
    (h' : step m next = .done fin) : Blamed m c ⟨.danglingSeparator, fin - 1⟩ := by
  obtain ⟨before, hbefore, hrest⟩ := gap_of_step_separator h
  have hfin : fin = c.total := (total_of_step_done h').trans (step_spans h).1
  obtain hnil | ⟨front, d, hlast⟩ := List.eq_nil_or_concat' c.rest
  · simp [hrest] at hnil
  · refine ⟨front, [d], hlast, ?_, ?_⟩
    · simp only [total, hlast, List.length_append, List.length_singleton] at hfin
      change fin - 1 = _
      omega
    · exact .lastCharacter (.of_isGap hbefore) (isGap_of_step_done h') (hrest.symm.trans hlast)

end Cursor

namespace TokenRun

variable {c : Cursor} {tokens : List (Token × Nat)} {ending : Except Misread Nat} {tok : Token}
  {position : Nat} {misread : Misread}

/-- The first token of a run comes from one step, and the others from where it ends. -/
lemma step_of_cons (h : ofCursor m c = ⟨(tok, position) :: tokens, ending⟩) :
    ∃ after, Cursor.step m c = .token tok after ∧ after.position = position ∧
      ofCursor m after = ⟨tokens, ending⟩ := by
  cases hstep : Cursor.step m c with
  | token token after =>
    rw [ofCursor_of_token hstep] at h
    obtain ⟨⟨⟨rfl, rfl⟩, htokens⟩, hending⟩ := by simpa [push] using h
    exact ⟨after, rfl, rfl, by rw [← htokens, ← hending]⟩
  | done fin =>
    rw [ofCursor_of_done hstep] at h
    simp at h
  | broken misread =>
    rw [ofCursor_of_broken hstep] at h
    simp at h

lemma step_of_done (h : ofCursor m c = ⟨[], .ok position⟩) : Cursor.step m c = .done position := by
  cases hstep : Cursor.step m c with
  | token token after =>
    rw [ofCursor_of_token hstep] at h
    simp [push] at h
  | done fin =>
    rw [ofCursor_of_done hstep] at h
    simpa using h
  | broken misread =>
    rw [ofCursor_of_broken hstep] at h
    simp at h

lemma step_of_broken (h : ofCursor m c = ⟨[], .error misread⟩) :
    Cursor.step m c = .broken misread := by
  cases hstep : Cursor.step m c with
  | token token after =>
    rw [ofCursor_of_token hstep] at h
    simp [push] at h
  | done fin =>
    rw [ofCursor_of_done hstep] at h
    simp at h
  | broken found =>
    rw [ofCursor_of_broken hstep] at h
    simpa using h

end TokenRun

namespace EntryRun

open TokenRun Cursor

variable {policy : IsolatedPolicy} {c : Cursor} {tokens : List (Token × Nat)}
  {ending : Except Misread Nat} {misread : Misread}

lemma misread_isolated {value : Text} {position : Nat} {run : EntryRun}
    (h : (isolated policy value position run).misread = some misread) :
    misread = ⟨.isolatedValue, position - 1⟩ ∨ run.misread = some misread := by
  cases policy with
  | allowed => exact .inr h
  | forbidden => exact .inl (Option.some.inj h).symm

/-- Whatever ends the assembly of entries is blamed on a character that was not read before. -/
lemma assemble_blamed (hrun : ofCursor m c = ⟨tokens, ending⟩)
    (h : (assemble policy ending tokens).misread = some misread) : Blamed m c misread := by
  fun_induction assemble policy ending tokens generalizing c with
  | case1 => cases h
  | case2 found hending =>
    subst hending
    obtain rfl : found = misread := Option.some.inj h
    exact step_blamed (step_of_broken hrun)
  | case3 position =>
    obtain ⟨after, hstep, rfl, -⟩ := step_of_cons hrun
    obtain rfl : ⟨.misplacedSeparator, after.position - 1⟩ = misread := Option.some.inj h
    exact blamed_misplaced hstep
  | case4 name p position hending =>
    subst hending
    obtain ⟨after, hstep, -, hafter⟩ := step_of_cons hrun
    obtain rfl | hnone := misread_isolated h
    · have hfin := total_of_step_done (step_of_done hafter)
      obtain ⟨htotal, hadvance⟩ := step_spans hstep
      have hwithin : after.position ≤ after.total := Nat.le_add_right ..
      exact blamed_isolated (by omega) (by omega)
    · cases hnone
  | case5 name p found hending =>
    subst hending
    obtain ⟨after, hstep, -, hafter⟩ := step_of_cons hrun
    obtain rfl : found = misread := Option.some.inj h
    obtain ⟨front, hfront⟩ := step_passes hstep
    exact (step_blamed (step_of_broken hafter)).of_passes hfront
  | case6 name p next position rest ih =>
    obtain ⟨after, hstep, -, hafter⟩ := step_of_cons hrun
    obtain rfl | hrest := misread_isolated h
    · obtain ⟨later, hlater, rfl, -⟩ := step_of_cons hafter
      obtain ⟨htotal, hadvance⟩ := step_spans hstep
      obtain ⟨htotal', hadvance'⟩ := step_spans hlater
      refine blamed_isolated (by omega) ?_
      rw [← htotal, ← htotal', total]
      omega
    · obtain ⟨front, hfront⟩ := step_passes hstep
      exact (ih hafter hrest).of_passes hfront
  | case7 name p q position hending =>
    subst hending
    obtain ⟨after, hstep, -, hafter⟩ := step_of_cons hrun
    obtain ⟨next, hnext, -, hdone⟩ := step_of_cons hafter
    obtain rfl : ⟨.danglingSeparator, position - 1⟩ = misread := Option.some.inj h
    obtain ⟨front, hfront⟩ := step_passes hstep
    exact (blamed_last hnext (step_of_done hdone)).of_passes hfront
  | case8 name p q found hending =>
    subst hending
    obtain ⟨after, hstep, -, hafter⟩ := step_of_cons hrun
    obtain ⟨next, hnext, -, hbroken⟩ := step_of_cons hafter
    obtain rfl : found = misread := Option.some.inj h
    obtain ⟨front, hfront⟩ := step_passes hstep
    obtain ⟨gap, hgap⟩ := step_passes hnext
    exact (step_blamed (step_of_broken hbroken)).of_passes (hfront.trans hgap)
  | case9 name p q position rest =>
    obtain ⟨after, hstep, -, hafter⟩ := step_of_cons hrun
    obtain ⟨next, hnext, -, hsecond⟩ := step_of_cons hafter
    obtain ⟨later, hlater, rfl, -⟩ := step_of_cons hsecond
    obtain rfl : ⟨.danglingSeparator, later.position - 1⟩ = misread := Option.some.inj h
    obtain ⟨front, hfront⟩ := step_passes hstep
    exact (blamed_second hnext hlater).of_passes hfront
  | case10 name p q value position rest ih =>
    obtain ⟨after, hstep, -, hafter⟩ := step_of_cons hrun
    obtain ⟨next, hnext, -, hvalue⟩ := step_of_cons hafter
    obtain ⟨later, hlater, -, hrest⟩ := step_of_cons hvalue
    obtain ⟨front, hfront⟩ := step_passes hstep
    obtain ⟨middle, hmiddle⟩ := step_passes hnext
    obtain ⟨back, hback⟩ := step_passes hlater
    exact (ih hrest h).of_passes ((hfront.trans hmiddle).trans hback)

end EntryRun

/-- What a fault says about a fragment: a position in it, and what stands there up to a certain
length. The character at the position is the one to blame. -/
structure PointsAt (m : Marks) (t : Text) (kind : Misreading) (position : Nat) (shown : Text) :
    Prop where
  inside : position < t.length
  shown_eq : shown = (t.drop position).take 24
  shown_ne_nil : shown ≠ []
  blames : Blames m kind (t.take position) (t.drop position)

/-- The fault is a misreading of a fragment and points at what caused it. -/
def Fault.Points (m : Marks) (t : Text) (fault : Fault) : Prop :=
  ∃ kind position shown, fault = .misread kind position shown ∧ PointsAt m t kind position shown

lemma Cursor.Blamed.points {misread : Misread} (h : (Cursor.start t).Blamed m misread) :
    (misread.fault t).Points m t := by
  obtain ⟨before, rest, ht, hposition, hblames⟩ := h
  obtain rfl : t = before ++ rest := ht
  obtain ⟨c, rest, rfl⟩ := List.exists_cons_of_ne_nil hblames.ne_nil
  rw [start, Nat.zero_add] at hposition
  refine ⟨misread.kind, misread.position, _, rfl, ?_, rfl, ?_, ?_⟩
  · simp [hposition]
  · simp [hposition, Text.excerpt, Text.excerptLength]
  · simpa [hposition] using hblames

lemma EntryRun.ofText_points {policy : IsolatedPolicy} {misread : Misread}
    (h : (ofText policy m t).misread = some misread) : (misread.fault t).Points m t :=
  (assemble_blamed (c := .start t) rfl h).points

lemma scan_points {fault : Fault} (h : scan m t = .error fault) : fault.Points m t := by
  cases hmisread : (EntryRun.ofText .allowed m t).misread with
  | none => simp [scan, hmisread] at h
  | some misread =>
    obtain rfl : misread.fault t = fault := by simpa [scan, hmisread] using h
    exact EntryRun.ofText_points hmisread

/-- A fault of a fragment, whether values without a name are allowed in it or not, points into the
fragment, at the character that is to be blamed for it. -/
theorem fault_points (m : Marks) (t : Text) :
    (∀ policy misread, (EntryRun.ofText policy m t).misread = some misread →
      (misread.fault t).Points m t) ∧
    ∀ fault, scan m t = .error fault → fault.Points m t :=
  ⟨fun _ _ h => EntryRun.ofText_points h, fun _ h => scan_points h⟩

/-- A bracket that is open while an inner one is closed, and a second separator behind blanks. -/
theorem fault_points_nested :
    let t : Text := ['[', 'a', ']', ' ', '[', 'b', '[', 'c', ']']
    let u : Text := ['\\', '=', '=', ' ', '=', 'b']
    ((EntryRun.ofText .forbidden .standard t).misread = some ⟨.unterminatedBracket, 4⟩ ∧
      Fault.Points .standard t (.misread .unterminatedBracket 4 ['[', 'b', '[', 'c', ']'])) ∧
    scan .standard u = .error (.misread .danglingSeparator 4 ['=', 'b']) ∧
      Fault.Points .standard u (.misread .danglingSeparator 4 ['=', 'b']) := by
  intro t u
  have ht : (EntryRun.ofText .forbidden .standard t).misread = some ⟨.unterminatedBracket, 4⟩ := by
    cbv
  have hu : scan .standard u = .error (.misread .danglingSeparator 4 ['=', 'b']) := by cbv
  exact ⟨⟨ht, (fault_points .standard t).1 .forbidden _ ht⟩, hu, (fault_points .standard u).2 _ hu⟩

end ParamLang
