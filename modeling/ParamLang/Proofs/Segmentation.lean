import ParamLang.Proofs.Plain

/-! How a text is cut into references and the literals between them. The cut loses nothing and
leaves no reference inside a literal, and whether it finds a reference can be told from two or more
characters that stand next to each other. -/
namespace ParamLang.Segment

/-- A text with two sigils and a name character in front, or with a sigil and a name in braces. -/
inductive Opens (sigil : Char) : Text → Prop
  | sigils {c : Char} (hc : isNameChar c = true) (rest : Text) :
      Opens sigil (sigil :: sigil :: c :: rest)
  | braces {name : Text} (hsigil : sigil ≠ '{') (hne : name ≠ []) (hname : name.IsPlain)
      (rest : Text) : Opens sigil (sigil :: '{' :: (name ++ '}' :: rest))

/-- The segments of a text: no literal is empty, holds a reference or is followed by another
literal, and a name is not empty. A plain reference takes in all the name characters there are. -/
inductive Segmentation (sigil : Char) : Text → List Segment → Prop
  | nil : Segmentation sigil [] []
  | literal {text rest : Text} {segments : List Segment} (hne : text ≠ [])
      (hnone : hasReferences sigil text = false)
      (apart : ∀ s ∈ segments.head?, s.isReference = true)
      (tail : Segmentation sigil rest segments) :
      Segmentation sigil (text ++ rest) (.literal text :: segments)
  | reference {form : ReferenceForm} {name rest : Text} {segments : List Segment} (hne : name ≠ [])
      (hname : name.IsPlain) (hend : form = .plain → ∀ c ∈ rest.head?, isNameChar c = false)
      (tail : Segmentation sigil rest segments) :
      Segmentation sigil (form.write sigil name ++ rest) (.reference form name :: segments)

variable {sigil c : Char} {t u name rest : Text} {form : ReferenceForm} {segments : List Segment}

lemma name?_spec (h : name? t = some (name, rest)) :
    name ≠ [] ∧ name.IsPlain ∧ ∀ c ∈ rest.head?, isNameChar c = false := by
  unfold name? at h
  split at h
  · simp at h
  · rename_i hne
    simp only [Option.some.injEq, Prod.mk.injEq] at h
    obtain ⟨rfl, rfl⟩ := h
    refine ⟨hne, fun c hc => List.mem_takeWhile_imp hc, fun c hc => ?_⟩
    have hstop := List.head?_dropWhile_not isNameChar t
    rw [Option.mem_def.mp hc] at hstop
    simpa using hstop

lemma name?_append (hne : name ≠ []) (hname : name.IsPlain)
    (hend : ∀ c ∈ rest.head?, isNameChar c = false) : name? (name ++ rest) = some (name, rest) := by
  have htake : rest.takeWhile isNameChar = [] := by
    cases rest with
    | nil => rfl
    | cons c rest => simp [hend c rfl]
  have hdrop : rest.dropWhile isNameChar = rest := by
    cases rest with
    | nil => rfl
    | cons c rest => simp [hend c rfl]
  simp [name?, List.takeWhile_append_of_pos hname, List.dropWhile_append_of_pos hname, htake, hdrop,
    hne]

lemma nameBefore?_spec {closer : Char} (h : nameBefore? closer t = some (name, rest)) :
    name ≠ [] ∧ name.IsPlain := by
  unfold nameBefore? at h
  split at h
  · rename_i hn
    split at h
    · simp only [Option.some.injEq, Prod.mk.injEq] at h
      obtain ⟨hne, hname, -⟩ := name?_spec hn
      exact h.1 ▸ ⟨hne, hname⟩
    · simp at h
  · simp at h

lemma nameBefore?_append {closer : Char} (hne : name ≠ []) (hname : name.IsPlain)
    (hcloser : isNameChar closer = false) :
    nameBefore? closer (name ++ closer :: rest) = some (name, rest) := by
  have hend : ∀ c ∈ (closer :: rest).head?, isNameChar c = false := by simp [hcloser]
  simp [nameBefore?, name?_append hne hname hend]

lemma delimitedName?_spec (h : delimitedName? sigil t = some (name, rest)) :
    name ≠ [] ∧ name.IsPlain := by
  cases t with
  | nil => simp [delimitedName?] at h
  | cons c t =>
    simp only [delimitedName?] at h
    split at h
    · exact nameBefore?_spec h
    · simp at h

/-- The ways in which a text begins with a reference. -/
lemma reference?_cases (h : reference? sigil t = some (form, name, rest)) :
    (form = .delimited ∧ ∃ u, delimitedName? sigil u = some (name, rest)) ∨
    (form = .plain ∧ ∃ u, name? u = some (name, rest)) ∨
    (form = .braced ∧ sigil ≠ '{' ∧ ∃ u, nameBefore? '}' u = some (name, rest)) := by
  unfold reference? at h
  split at h
  · rename_i a b t
    split at h
    · simp at h
    · split at h
      · split at h
        · rename_i hd
          simp only [Option.some.injEq, Prod.mk.injEq] at h
          obtain ⟨rfl, rfl, rfl⟩ := h
          exact .inl ⟨rfl, t, hd⟩
        · simp only [Option.map_eq_some_iff, Prod.mk.injEq] at h
          obtain ⟨r, hr, rfl, rfl⟩ := h
          exact .inr (.inl ⟨rfl, t, hr⟩)
      · rename_i hb
        split at h
        · rename_i hbrace
          simp only [Option.map_eq_some_iff, Prod.mk.injEq] at h
          obtain ⟨r, hr, rfl, rfl⟩ := h
          exact .inr (.inr ⟨rfl, fun hs => hb (hbrace.trans hs.symm), t, hr⟩)
        · simp at h
  · simp at h

/-- What the name of a reference is made of, and what stands after it. -/
lemma reference?_spec (h : reference? sigil t = some (form, name, rest)) :
    name ≠ [] ∧ name.IsPlain ∧ (form = .plain → ∀ c ∈ rest.head?, isNameChar c = false) := by
  obtain ⟨rfl, u, hu⟩ | ⟨rfl, u, hu⟩ | ⟨rfl, -, u, hu⟩ := reference?_cases h
  · obtain ⟨hne, hname⟩ := delimitedName?_spec hu
    exact ⟨hne, hname, by simp⟩
  · obtain ⟨hne, hname, hend⟩ := name?_spec hu
    exact ⟨hne, hname, fun _ => hend⟩
  · obtain ⟨hne, hname⟩ := nameBefore?_spec hu
    exact ⟨hne, hname, by simp⟩

lemma Opens.append (h : Opens sigil t) (u : Text) : Opens sigil (t ++ u) := by
  cases h with
  | sigils hc rest => exact .sigils hc (rest ++ u)
  | braces hsigil hne hname rest =>
    simpa using Opens.braces hsigil hne hname (rest ++ u)

/-- A text with these characters in front begins with a reference, whatever follows them. -/
lemma Opens.reference? (hsigil : isNameChar sigil = false) (h : Opens sigil t) :
    ∃ read, reference? sigil t = some read := by
  cases h with
  | @sigils c hc rest =>
    have hcs : c ≠ sigil := by
      rintro rfl
      simp [hc] at hsigil
    simp [Segment.reference?, delimitedName?, hcs, name?, hc]
  | @braces name hs hne hname rest =>
    have hcloser : isNameChar '}' = false := by decide
    simp [Segment.reference?, hs.symm, nameBefore?_append hne hname hcloser]

/-- What a form writes is read as a reference, whatever follows it. After a plain one there must be
an end of the name, and where the sigil is a brace itself, two of them begin a plain one. -/
lemma reference?_write (hsigil : isNameChar sigil = false) (hne : name ≠ []) (hname : name.IsPlain)
    (hbrace : form = .braced → sigil ≠ '{')
    (hend : form = .plain → ∀ c ∈ rest.head?, isNameChar c = false) :
    reference? sigil (form.write sigil name ++ rest) = some (form, name, rest) := by
  cases form with
  | plain =>
    obtain ⟨c, u, rfl⟩ := List.exists_cons_of_ne_nil hne
    have hc : c ≠ sigil := by
      rintro rfl
      simp [hname c] at hsigil
    have hread := name?_append hne hname (hend rfl)
    simp only [List.cons_append] at hread
    simp [ReferenceForm.write, reference?, delimitedName?, hc, hread]
  | delimited =>
    have hread : nameBefore? sigil (name ++ sigil :: rest) = some (name, rest) :=
      nameBefore?_append hne hname hsigil
    simp [ReferenceForm.write, reference?, delimitedName?, hread]
  | braced =>
    have hcloser : isNameChar '}' = false := by decide
    have hread : nameBefore? '}' (name ++ '}' :: rest) = some (name, rest) :=
      nameBefore?_append hne hname hcloser
    simp [ReferenceForm.write, reference?, (hbrace rfl).symm, hread]

/-- A reference opens where it begins, or, if it is delimited, one character later. -/
lemma opens_of_reference? (h : reference? sigil t = some (form, name, rest)) :
    ∃ u, u <:+ t ∧ Opens sigil u := by
  obtain ⟨hne, hname, -⟩ := reference?_spec h
  obtain ⟨c, name, rfl⟩ := List.exists_cons_of_ne_nil hne
  have hc := hname c (by simp)
  obtain rfl := reference?_eq_some h
  cases form with
  | plain => exact ⟨_, List.suffix_refl _, .sigils hc (name ++ rest)⟩
  | delimited =>
    refine ⟨sigil :: sigil :: c :: (name ++ sigil :: rest), ⟨[sigil], ?_⟩, .sigils hc _⟩
    simp [ReferenceForm.write]
  | braced =>
    obtain ⟨hform, -⟩ | ⟨hform, -⟩ | ⟨-, hs, -⟩ := reference?_cases h
    · simp at hform
    · simp at hform
    · refine ⟨_, List.suffix_refl _, ?_⟩
      simpa [ReferenceForm.write] using Opens.braces hs (List.cons_ne_nil c name) hname rest

lemma hasReferences_of_reference? (h : reference? sigil t = some (form, name, rest)) :
    hasReferences sigil t = true := by
  simp [hasReferences, ofText_of_reference h, isReference]

/-- A text holds a reference just when one opens somewhere in it. -/
lemma hasReferences_iff (hsigil : isNameChar sigil = false) :
    hasReferences sigil t = true ↔ ∃ u, u <:+ t ∧ Opens sigil u := by
  constructor
  · intro h
    induction t with
    | nil => simp [hasReferences] at h
    | cons c t ih =>
      cases hread : reference? sigil (c :: t) with
      | some read => exact opens_of_reference? hread
      | none =>
        rw [hasReferences_of_literal hread] at h
        obtain ⟨u, hu, hopens⟩ := ih h
        exact ⟨u, hu.trans (List.suffix_cons c t), hopens⟩
  · rintro ⟨u, hu, hopens⟩
    induction t with
    | nil =>
      obtain rfl := List.suffix_nil.mp hu
      cases hopens
    | cons c t ih =>
      cases hread : reference? sigil (c :: t) with
      | some read => exact hasReferences_of_reference? hread
      | none =>
        rw [hasReferences_of_literal hread]
        obtain rfl | hu := List.suffix_cons_iff.mp hu
        · obtain ⟨read, hsome⟩ := hopens.reference? hsigil
          simp [hread] at hsome
        · exact ih hu

/-- A character that begins no reference in a text begins none in a part of it either. -/
lemma hasReferences_cons_of_append (hsigil : isNameChar sigil = false)
    (hnone : reference? sigil (c :: (t ++ u)) = none) (ht : hasReferences sigil t = false) :
    hasReferences sigil (c :: t) = false := by
  rw [Bool.eq_false_iff, Ne, hasReferences_iff hsigil]
  rintro ⟨v, hv, hopens⟩
  obtain rfl | hv := List.suffix_cons_iff.mp hv
  · obtain ⟨read, hsome⟩ := (hopens.append u).reference? hsigil
    rw [List.cons_append, hnone] at hsome
    cases hsome
  · rw [(hasReferences_iff hsigil).mpr ⟨v, hv, hopens⟩] at ht
    cases ht

/-- A character that begins no reference goes to the literal in front of the other segments. -/
lemma Segmentation.push (hsigil : isNameChar sigil = false) (h : Segmentation sigil t segments)
    (hnone : reference? sigil (c :: t) = none) :
    Segmentation sigil (c :: t) (pushLiteral c segments) := by
  have halone : hasReferences sigil [c] = false :=
    hasReferences_cons_of_append hsigil (t := []) hnone (by simp [hasReferences])
  cases h with
  | nil => exact .literal (List.cons_ne_nil c []) halone (by simp) .nil
  | @literal text rest segments _ htext apart tail =>
    have hpushed := hasReferences_cons_of_append hsigil hnone htext
    exact .literal (List.cons_ne_nil c text) hpushed apart tail
  | reference hne hname hend tail =>
    exact .literal (List.cons_ne_nil c []) halone (by simp [isReference])
      (.reference hne hname hend tail)

lemma segmentation_ofText (hsigil : isNameChar sigil = false) (t : Text) :
    Segmentation sigil t (ofText sigil t) := by
  fun_induction ofText sigil t with
  | case1 => exact .nil
  | case2 c t form name rest h _ ih =>
    obtain ⟨hne, hname, hend⟩ := reference?_spec h
    rw [reference?_eq_some h]
    exact .reference hne hname hend ih
  | case3 c t h ih => exact ih.push hsigil h

/-- Cutting a text into segments loses nothing and misses no reference. There is one just when
somewhere a reference opens. -/
theorem ofText_exact (m : Marks) (t : Text) :
    Segmentation m.sigil t (ofText m.sigil t) ∧
      (hasReferences m.sigil t = true ↔ ∃ u, u <:+ t ∧ Opens m.sigil u) := by
  have hsigil : isNameChar m.sigil = false := m.not_nameChar_of_mem (by simp [Marks.toList])
  exact ⟨segmentation_ofText hsigil t, hasReferences_iff hsigil⟩

/-- Of three sigils in front of a name, the first one is a literal unless a fourth one follows. -/
example : ofText '$' ['$', '$', '$', 'b', '.'] =
    [.literal ['$'], .reference .plain ['b'], .literal ['.']] := by cbv

end ParamLang.Segment
