import ParamLang.Proofs.Segmentation

/-! References in their surroundings. A reference in any of its forms is found as it was written,
between a text without the sigil and any text that does not go on with its name, and the cut begins
anew behind it. Only a sigil that is a brace itself leaves no room for the braced form. -/
namespace ParamLang.Segment

/-- A text without references as segments. -/
def literals (t : Text) : List Segment := if t = [] then [] else [.literal t]

variable {sigil : Char} {before name after rest : Text} {form : ReferenceForm}

/-- What is in front of a reference, if it does not hold the sigil, is a literal. -/
lemma ofText_append_of_not_mem (hbefore : sigil ∉ before)
    (hread : reference? sigil after = some (form, name, rest)) :
    ofText sigil (before ++ after) = literals before ++ ofText sigil after := by
  induction before with
  | nil => rfl
  | cons c before ih =>
    obtain ⟨hc, hbefore⟩ := not_or.mp (List.mem_cons.not.mp hbefore)
    rw [List.cons_append, ofText_of_literal (reference?_of_ne (Ne.symm hc) _), ih hbefore,
      ofText_of_reference hread]
    cases before <;> simp [literals, pushLiteral]

lemma ne_brace_of_reference? (hread : reference? sigil after = some (form, name, rest)) :
    form = .braced → sigil ≠ '{' := by
  rintro rfl
  obtain ⟨hform, -⟩ | ⟨hform, -⟩ | ⟨-, hsigil, -⟩ := reference?_cases hread
  · cases hform
  · cases hform
  · exact hsigil

/-- No reference reaches over a space. -/
lemma reference?_append_space (hsigil : isNameChar sigil = false) (hspace : sigil ≠ ' ')
    (t u : Text) : reference? sigil (t ++ ' ' :: u) =
      (reference? sigil t).map fun read => (read.1, read.2.1, read.2.2 ++ ' ' :: u) := by
  cases hread : reference? sigil t with
  | some read =>
    obtain ⟨form, name, rest⟩ := read
    obtain ⟨hne, hname, hend⟩ := reference?_spec hread
    rw [reference?_eq_some hread, List.append_assoc]
    refine reference?_write hsigil hne hname (ne_brace_of_reference? hread) fun hform => ?_
    cases rest with
    | nil => simp; decide
    | cons c rest => simpa using hend hform
  | none =>
    cases hlong : reference? sigil (t ++ ' ' :: u) with
    | none => rfl
    | some read =>
      -- What is read ends in front of the space, and so it would have been read without it.
      obtain ⟨form, name, rest⟩ := read
      obtain ⟨hne, hname, hend⟩ := reference?_spec hlong
      have hwritten : ' ' ∉ form.write sigil name := by
        have hnot : ' ' ∉ name := fun hmem => absurd (hname ' ' hmem) (by decide)
        cases form <;> simp [ReferenceForm.write, hnot, hspace.symm]
      have hsplit : ∃ back, t = form.write sigil name ++ back ∧ rest = back ++ ' ' :: u := by
        obtain ⟨more, hwrite, hmore⟩ | hback :=
          List.append_eq_append_iff.mp (reference?_eq_some hlong)
        · cases more with
          | nil => exact ⟨[], by simpa using hwrite.symm, hmore.symm⟩
          | cons c more =>
            obtain ⟨rfl, -⟩ := List.cons.inj hmore
            simp [hwrite] at hwritten
        · exact hback
      obtain ⟨back, rfl, rfl⟩ := hsplit
      have hshort : reference? sigil (form.write sigil name ++ back) = some (form, name, back) := by
        refine reference?_write hsigil hne hname (ne_brace_of_reference? hlong) fun hform => ?_
        cases back with
        | nil => simp
        | cons c back => simpa using hend hform
      rw [hread] at hshort
      cases hshort

/-- Two sigils that are braces begin a plain reference, and so does a braced one. -/
lemma write_braced (name after : Text) : ReferenceForm.braced.write '{' name ++ after =
    ReferenceForm.plain.write '{' name ++ '}' :: after := by
  simp [ReferenceForm.write]

/-- A reference is cut out of its surroundings whole, under the name it was written with, and what
follows it is cut as if it stood alone. There is one exception: behind a sigil that is a brace, a
braced reference is a plain one with a closing brace after it, and is cut as such. -/
theorem ofText_write (m : Marks) (hbefore : m.sigil ∉ before) (hne : name ≠ [])
    (hname : name.IsPlain) (hend : form = .plain → ∀ c ∈ after.head?, isNameChar c = false) :
    let text := before ++ (form.write m.sigil name ++ after)
    (ofText m.sigil text = literals before ++ .reference form name :: ofText m.sigil after ↔
        ¬(form = .braced ∧ m.sigil = '{')) ∧
      (form = .braced → m.sigil = '{' → ofText m.sigil text =
        literals before ++ .reference .plain name :: ofText m.sigil ('}' :: after)) := by
  intro text
  have hsigil : isNameChar m.sigil = false := m.not_nameChar_of_mem (by simp [Marks.toList])
  have hcut {form : ReferenceForm} {after : Text} (hbrace : form = .braced → m.sigil ≠ '{')
      (hend : form = .plain → ∀ c ∈ after.head?, isNameChar c = false) :
      ofText m.sigil (before ++ (form.write m.sigil name ++ after)) =
        literals before ++ .reference form name :: ofText m.sigil after := by
    have hread := reference?_write hsigil hne hname hbrace hend
    rw [ofText_append_of_not_mem hbefore hread, ofText_of_reference hread]
  have hexception (hform : form = .braced) (hbrace : m.sigil = '{') : ofText m.sigil text =
      literals before ++ .reference .plain name :: ofText m.sigil ('}' :: after) := by
    have htext : text = before ++ (ReferenceForm.plain.write m.sigil name ++ '}' :: after) := by
      rw [hbrace, ← write_braced, ← hbrace, ← hform]
    have hcloser : isNameChar '}' = false := by decide
    rw [htext]
    exact hcut (by simp) (by simp [hcloser])
  refine ⟨⟨?_, fun hroom => hcut (fun hform hbrace => hroom ⟨hform, hbrace⟩) hend⟩, hexception⟩
  rintro hwhole ⟨hform, hbrace⟩
  rw [hexception hform hbrace, List.append_cancel_left_eq] at hwhole
  simp [hform] at hwhole

/-- A closing brace as the sigil, which then stands at both ends of a braced reference and begins
the plain one that follows it. -/
theorem ofText_write_closing :
    let m : Marks := { Marks.standard with
      sigil := '}', usable := List.all_eq_true.mp (by decide), distinct := by decide }
    Marks.make '[' ']' '=' '\\' '}' = .ok m ∧ m.sigil ∉ ['{'] ∧ ['v'] ≠ [] ∧
      Text.IsPlain ['v'] ∧ ofText m.sigil ['{', '}', '{', 'v', '}', '}', '}', 'w'] =
        [.literal ['{'], .reference .braced ['v'], .reference .plain ['w']] := by
  intro m
  have hname : Text.IsPlain ['v'] := List.all_eq_true.mp (by decide)
  have hbefore : m.sigil ∉ ['{'] := by decide
  have hcut :
      ofText m.sigil (['{'] ++ (ReferenceForm.braced.write m.sigil ['v'] ++ ['}', '}', 'w'])) =
        literals ['{'] ++ .reference .braced ['v'] :: ofText m.sigil ['}', '}', 'w'] :=
    (ofText_write m hbefore (List.cons_ne_nil _ _) hname (by simp)).1.mpr (by decide)
  have hafter : ofText m.sigil ['}', '}', 'w'] = [.reference .plain ['w']] := by cbv
  rw [hafter] at hcut
  exact ⟨rfl, hbefore, List.cons_ne_nil _ _, hname, hcut⟩

/-- An opening brace may be the sigil as well, and then a braced reference is not cut out whole. -/
theorem braced_cut_short :
    let m : Marks := { Marks.standard with
      sigil := '{', usable := List.all_eq_true.mp (by decide), distinct := by decide }
    let text := ['a'] ++ (ReferenceForm.braced.write m.sigil ['v'] ++ ['b'])
    Marks.make '[' ']' '=' '\\' '{' = .ok m ∧
      ofText m.sigil text = [.literal ['a'], .reference .plain ['v'], .literal ['}', 'b']] ∧
      ofText m.sigil text ≠ [.literal ['a'], .reference .braced ['v'], .literal ['b']] := by
  intro m text
  have hcut : ofText m.sigil text =
      [.literal ['a'], .reference .plain ['v'], .literal ['}', 'b']] := by cbv
  exact ⟨rfl, hcut, by simp [hcut]⟩

end ParamLang.Segment
