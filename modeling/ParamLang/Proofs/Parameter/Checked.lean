import ParamLang.Parameter.View
import ParamLang.Proofs.Segmentation

/-! Checked access. What a parameter gives holds no reference: a text with one in it is refused, but
for a text that is a reference and nothing else, which the default may stand in for. -/
namespace ParamLang

/-- A text that is one reference, written in any of the forms, and nothing else. Where the sigil is
a brace itself, there is no braced form. -/
inductive IsReference (sigil : Char) : Text → Prop
  | write (form : ReferenceForm) {name : Text} (hne : name ≠ []) (hname : name.IsPlain)
      (hbrace : form = .braced → sigil ≠ '{') : IsReference sigil (form.write sigil name)

lemma isReference_iff {sigil : Char} {t : Text} (hsigil : isNameChar sigil = false) :
    IsReference sigil t ↔ ∃ form name, Segment.ofText sigil t = [.reference form name] := by
  constructor
  · rintro ⟨form, hne, hname, hbrace⟩
    have hread : Segment.reference? sigil (form.write sigil _ ++ []) = _ :=
      Segment.reference?_write hsigil hne hname hbrace (by simp)
    rw [List.append_nil] at hread
    exact ⟨form, _, by rw [Segment.ofText_of_reference hread, Segment.ofText_nil]⟩
  · rintro ⟨form, name, hsegments⟩
    have hsource := Segment.flatMap_source_ofText sigil t
    rw [hsegments, List.flatMap_singleton, Segment.source] at hsource
    subst hsource
    cases hread : Segment.reference? sigil (form.write sigil name) with
    | none =>
      obtain ⟨c, u, hwritten⟩ :=
        List.exists_cons_of_ne_nil (Segment.write_ne_nil sigil name form)
      rw [hwritten] at hread hsegments
      rw [Segment.ofText_of_literal hread] at hsegments
      unfold Segment.pushLiteral at hsegments
      split at hsegments <;> simp at hsegments
    | some read =>
      obtain ⟨form', name', rest⟩ := read
      rw [Segment.ofText_of_reference hread] at hsegments
      obtain ⟨⟨rfl, rfl⟩, hrest⟩ : (form' = form ∧ name' = name) ∧ _ := by simpa using hsegments
      obtain ⟨hne, hname, -⟩ := Segment.reference?_spec hread
      refine .write form' hne hname ?_
      rintro rfl
      obtain ⟨hform, -⟩ | ⟨hform, -⟩ | ⟨-, hbrace, -⟩ := Segment.reference?_cases hread
      · cases hform
      · cases hform
      · exact hbrace

lemma IsReference.hasReferences {sigil : Char} {t : Text} (hsigil : isNameChar sigil = false)
    (h : IsReference sigil t) : ParamLang.hasReferences sigil t = true := by
  obtain ⟨form, name, hsegments⟩ := (isReference_iff hsigil).mp h
  simp [ParamLang.hasReferences, hsegments, Segment.isReference]

namespace View

lemma not_nameChar_sigil (v : View) : isNameChar v.marks.sigil = false :=
  v.marks.not_nameChar_of_mem (by simp [Marks.toList])

/-- The texts that a parameter gives: the assigned text, the default where nothing is assigned, and
the default in the place of an assigned text that is a reference. -/
inductive Gives (v : View) : Text → Prop
  | assigned {t : Text} (hraw : v.cell.raw = some t) (hfree : v.hasReferences t = false) : Gives v t
  | default {d : Text} (hraw : v.cell.raw = none) (hdefault : v.cell.default = some d)
      (hfree : v.hasReferences d = false) : Gives v d
  | standIn {t d : Text} (hraw : v.cell.raw = some t) (ht : IsReference v.marks.sigil t)
      (hdefault : v.cell.default = some d) (hfree : v.hasReferences d = false) : Gives v d

variable {v : View} {t d : Text}

lemma Gives.hasReferences (h : v.Gives t) : v.hasReferences t = false := by
  cases h <;> assumption

lemma substitute?_eq_some_iff : v.substitute? t = some d ↔
    IsReference v.marks.sigil t ∧ v.cell.default = some d ∧ v.hasReferences d = false := by
  rw [isReference_iff v.not_nameChar_sigil]
  unfold substitute?
  split
  · rename_i form name default hsegments hdefault
    by_cases hrefs : v.hasReferences default
    · simp only [hrefs, if_true, reduceCtorEq, false_iff, not_and]
      rintro - hd
      simp_all
    · grind
  · rename_i hshape
    simp only [reduceCtorEq, false_iff, not_and]
    rintro ⟨form, name, hsegments⟩ hdefault
    exact absurd hdefault (hshape form name d hsegments)

/-- What a parameter gives depends on the text that it shows. -/
lemma gives_iff (h : v.cell.shown? = some t) : v.Gives d ↔
    v.hasReferences t = false ∧ d = t ∨
      v.hasReferences t = true ∧ v.substitute? t = some d := by
  constructor
  · intro hgives
    cases hgives with
    | assigned hraw hfree =>
      obtain rfl : d = t := by simpa [Cell.shown?, hraw] using h
      exact .inl ⟨hfree, rfl⟩
    | default hraw hdefault hfree =>
      obtain rfl : d = t := by simpa [Cell.shown?, hraw, hdefault] using h
      exact .inl ⟨hfree, rfl⟩
    | @standIn assigned _ hraw ht hdefault hfree =>
      obtain rfl : assigned = t := by simpa [Cell.shown?, hraw] using h
      exact .inr ⟨ht.hasReferences v.not_nameChar_sigil,
        substitute?_eq_some_iff.mpr ⟨ht, hdefault, hfree⟩⟩
  · rintro (⟨hfree, rfl⟩ | ⟨hrefs, hsubstitute⟩)
    · cases hraw : v.cell.raw with
      | some assigned =>
        obtain rfl : assigned = d := by simpa [Cell.shown?, hraw] using h
        exact .assigned hraw hfree
      | none =>
        have hdefault : v.cell.default = some d := by simpa [Cell.shown?, hraw] using h
        exact .default hraw hdefault hfree
    · obtain ⟨ht, hdefault, hfree⟩ := substitute?_eq_some_iff.mp hsubstitute
      cases hraw : v.cell.raw with
      | some assigned =>
        obtain rfl : assigned = t := by simpa [Cell.shown?, hraw] using h
        exact .standIn hraw ht hdefault hfree
      | none =>
        -- The default cannot stand in for itself.
        obtain rfl : d = t := by simpa [Cell.shown?, hraw, hdefault] using h
        simp [hfree] at hrefs

lemma Gives.shown (h : v.Gives d) : ∃ t, v.cell.shown? = some t := by
  cases h <;> simp_all [Cell.shown?]

lemma text_of_shown (h : v.cell.shown? = some t) : v.text =
    if v.hasReferences t then
      match v.substitute? t with
      | some default => .ok default
      | none => .error (.unresolvedVariable v.name t)
    else .ok t := by
  cases hsubstitute : v.substitute? t <;> simp [text, raw, h, hsubstitute]

lemma text_of_not_shown (h : v.cell.shown? = none) : v.text = .error (.missingValue v.name) := by
  simp only [text, raw, h, error_bind]

lemma text_eq_ok_iff : v.text = .ok d ↔ v.Gives d := by
  cases hshown : v.cell.shown? with
  | none =>
    rw [text_of_not_shown hshown]
    refine ⟨nofun, fun hgives => ?_⟩
    obtain ⟨t, ht⟩ := hgives.shown
    simp [hshown] at ht
  | some t =>
    rw [text_of_shown hshown, gives_iff hshown]
    cases v.hasReferences t with
    | false => simp [eq_comm]
    | true => cases v.substitute? t <;> simp

lemma text_of_not_gives (h : v.cell.shown? = some t) (hnone : ∀ d, ¬v.Gives d) :
    v.text = .error (.unresolvedVariable v.name t) := by
  rw [text_of_shown h]
  cases hrefs : v.hasReferences t with
  | false => exact absurd ((gives_iff h).mpr (.inl ⟨hrefs, rfl⟩)) (hnone t)
  | true =>
    cases hsubstitute : v.substitute? t with
    | none => rfl
    | some d => exact absurd ((gives_iff h).mpr (.inr ⟨hrefs, hsubstitute⟩)) (hnone d)

variable {range : SizeRange} {ts : List Text}

/-- The elements are given only as a whole: in the range, and none of them with a reference. -/
lemma texts_eq_ok_iff : v.texts range = .ok ts ↔
    v.rawElements = .ok ts ∧ range.allows ts.length = true ∧
      ∀ t ∈ ts, v.hasReferences t = false := by
  cases helements : v.rawElements with
  | error fault => simp [texts, helements]
  | ok elements =>
    simp only [texts, helements, ok_bind, Except.ok.injEq, SizeRange.check]
    cases hsize : range.allows elements.length with
    | false => grind [error_bind]
    | true =>
      cases hbad : elements.find? v.hasReferences with
      | none => grind [ok_bind]
      | some bad => grind [ok_bind]

lemma get_eq_ok_iff {α : Type} {reading : Reading α} {a : α} :
    v.get reading = .ok a ↔ ∃ t, v.text = .ok t ∧ reading.read t = some a := by
  rw [get, bind_eq_ok_iff]
  refine exists_congr fun t => and_congr_right fun _ => ?_
  unfold convert
  split <;> simp_all

/-- No checked access gives a text with a reference in it. A text is refused unless it is free of
references or may be replaced by the default, and a value of a type is read from a text that the
parameter gives. -/
theorem text_checked (v : View) :
    (∀ t, v.text = .ok t ↔ v.Gives t) ∧
    (∀ t, v.Gives t → v.hasReferences t = false) ∧
    (∀ t, v.cell.shown? = some t → (∀ d, ¬v.Gives d) →
      v.text = .error (.unresolvedVariable v.name t)) ∧
    (v.cell.shown? = none → v.text = .error (.missingValue v.name)) ∧
    (∀ range ts, v.texts range = .ok ts → ∀ t ∈ ts, v.hasReferences t = false) ∧
    (∀ (α : Type) (reading : Reading α) (a : α), v.get reading = .ok a →
      ∃ t, v.text = .ok t ∧ reading.read t = some a) :=
  ⟨fun _ => text_eq_ok_iff, fun _ => Gives.hasReferences, fun _ => text_of_not_gives,
    text_of_not_shown, fun _ _ h => (texts_eq_ok_iff.mp h).2.2, fun _ _ _ => get_eq_ok_iff.mp⟩

/-- The default stands in for a delimited reference, but not with a character after it. -/
example :
    let view (raw : Text) : View := ⟨['p'], ⟨some raw, some ['d'], false⟩, .standard⟩
    let delimited : Text := ['$', '$', '$', 'u', '$']
    (view delimited).text = .ok ['d'] ∧ (view (delimited ++ ['.'])).text =
      .error (.unresolvedVariable ['p'] (delimited ++ ['.'])) := by
  constructor
  · cbv
  · cbv

end View

end ParamLang
