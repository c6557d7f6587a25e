import ParamLang.Proofs.Inclusion.File

/-! The inclusion of one section of a file. Comments are gone before a section is looked for, and
the section ends at the next marker, so what it reads as depends on its own lines alone. -/
namespace ParamLang

namespace Extract

variable {before body rest after : List Text} {name marker : Text}

/-- A section begins after the first line with its name. -/
lemma afterMarker?_append (hbefore : ∀ line ∈ before, sectionName? line ≠ some name)
    (hmarker : sectionName? marker = some name) :
    afterMarker? name (before ++ marker :: after) = some after := by
  induction before with
  | nil => exact if_pos hmarker
  | cons line before ih =>
    obtain ⟨hline, hbefore⟩ := List.forall_mem_cons.mp hbefore
    rw [List.cons_append, afterMarker?, if_neg hline, ih hbefore]

/-- A section goes on to the next marker. -/
lemma sectionBody_append (hbody : ∀ line ∈ body, sectionName? line = none)
    (hrest : ∀ next ∈ rest.head?, sectionName? next ≠ none) :
    sectionBody (body ++ rest) = body := by
  have hend : sectionBody rest = [] := by
    cases rest with
    | nil => rfl
    | cons next rest => exact List.takeWhile_cons_of_neg (by simpa using hrest next rfl)
  have hgoes : ∀ line ∈ body, (sectionName? line).isNone = true := by simpa using hbody
  rw [sectionBody, List.takeWhile_append_of_pos hgoes, ← sectionBody, hend, List.append_nil]

variable {content : Text} {extractor parameters : Option Text} {ls : List Text}

lemma extract_section
    (hextractor : extractor.map Text.trim = some ['s', 'e', 'c', 't', 'i', 'o', 'n'])
    (hparameters : Text.trim (parameters.getD []) = name)
    (hafter : afterMarker? name ls = some after) :
    extract ls extractor parameters = .ok (Text.joinLines (sectionBody after)) := by
  obtain ⟨e, rfl, he⟩ := Option.map_eq_some_iff.mp hextractor
  have hkeyword : Text.trim e = sectionKeyword := he
  have hpart : ¬(Text.trim e = [] ∨ Text.trim e = allName) := by
    rw [hkeyword]
    decide
  rw [extract, Option.getD_some, if_neg hpart, if_pos hkeyword, hparameters]
  simp only [hafter]

/-- Comments that are left out make no difference to where a section begins and ends. -/
lemma section_of_written (hname : name.IsTrimmed)
    (hwritten : Text.WrittenAs (before ++ marker :: (body ++ rest)) content)
    (hbefore : ∀ line ∈ before, ¬Text.IsMarker name line) (hmarker : Text.IsMarker name marker)
    (hbody : ∀ line ∈ body, ∀ any, ¬Text.IsMarker any line)
    (hrest : ∀ next ∈ rest.head?, ∃ any, Text.IsMarker any next) :
    ∃ found,
      afterMarker? name ((Text.lines content).filter fun line => !isComment line) = some found ∧
      sectionBody found = body.filter fun line => ¬Text.IsComment line := by
  let keep (line : Text) : Bool := !isComment line
  have hkeep {line any : Text} (h : Text.IsMarker any line) : keep line = true := by
    have hnot := h.not_isComment
    rwa [← Text.isComment_iff, Bool.not_eq_true, ← Bool.not_eq_true'] at hnot
  have hkept : (Text.lines content).filter keep =
      before.filter keep ++ marker :: (body.filter keep ++ rest.filter keep) := by
    rw [hwritten.lines_eq, List.filter_append, List.filter_cons_of_pos (hkeep hmarker),
      List.filter_append]
  have hcomment : (body.filter fun line => ¬Text.IsComment line) = body.filter keep := by
    refine List.filter_congr fun line _ => ?_
    simp [keep, ← Text.isComment_iff]
  refine ⟨body.filter keep ++ rest.filter keep, ?begins, ?ends⟩
  case begins =>
    refine (congrArg (afterMarker? name) hkept).trans (afterMarker?_append ?_ ?_)
    · intro line hline hfound
      exact hbefore line (List.mem_filter.mp hline).1 (sectionName?_eq_some_iff.mp hfound).2
    · exact sectionName?_eq_some_iff.mpr ⟨hname, hmarker⟩
  case ends =>
    rw [hcomment]
    refine sectionBody_append ?_ ?_
    · exact fun line hline =>
        sectionName?_eq_none_iff.mpr (hbody line (List.mem_filter.mp hline).1)
    · cases rest with
      | nil => simp
      | cons next rest =>
        obtain ⟨any, hnext⟩ := hrest next rfl
        rw [List.filter_cons_of_pos (hkeep hnext)]
        rintro _ ⟨⟩ hnone
        exact sectionName?_eq_none_iff.mp hnone any hnext

end Extract

namespace FileSystem

open Text

variable {system : FileSystem} {base source content : Text} {request : InclusionRequest}
  {before body rest : List Text} {name marker gap gap' : Text}

/-- A section is answered with what the lines read as that stand between its first marker and the
next marker or the end of the file, its comments left out, whatever else is in the file. -/
theorem includer_section (h : Supplies system base request source content)
    (hnames : request.names = none)
    (hextractor : request.extractor.map trim = some ['s', 'e', 'c', 't', 'i', 'o', 'n'])
    (hname : name.IsTrimmed) (hgap : gap.IsGap) (hgap' : gap'.IsGap)
    (hparameters : request.extractorParameters = some (gap ++ name ++ gap'))
    (hwritten : WrittenAs (before ++ marker :: (body ++ rest)) content)
    (hbefore : ∀ line ∈ before, ¬IsMarker name line) (hmarker : IsMarker name marker)
    (hbody : ∀ line ∈ body, ∀ any, ¬IsMarker any line)
    (hrest : ∀ next ∈ rest.head?, ∃ any, IsMarker any next) :
    system.includer base request = answered source
      (scan request.marks (['\n'].intercalate (body.filter fun line => ¬IsComment line))) := by
  have hwanted : trim (request.extractorParameters.getD []) = name := by
    rw [hparameters, Option.getD_some, trim_eq hgap hname hgap']
  obtain ⟨found, hafter, hsection⟩ :=
    Extract.section_of_written hname hwritten hbefore hmarker hbody hrest
  have hfragment := Extract.extract_section hextractor hwanted hafter
  rw [hsection] at hfragment
  exact h.includer_eq hnames hfragment

/-- A section between an open bracket and another section of its name. It holds a comment that looks
like a marker, and so does what stands before it. -/
theorem includer_section_between :
    let opened : Text := ['[', 'x']
    let remark : Text := [' ', '#', '-', '-', '-', 'w']
    let marker : Text := [' ', '-', '-', '-', ' ', 'w', ' ']
    let first : Text := ['a', '=', '[', '1']
    let second : Text := ['2', ']']
    let again : Text := ['-', '-', '-', 'w']
    let closed : Text := [']', ']']
    let content : Text := opened ++ '\n' :: (remark ++ '\n' :: (marker ++ '\n' ::
      (first ++ '\n' :: (remark ++ '\n' :: (second ++ '\n' :: (again ++ '\n' :: closed))))))
    let system : FileSystem := ⟨.ok, fun _ => .ok content⟩
    let request : InclusionRequest := ⟨['f'], none, some ['s', 'e', 'c', 't', 'i', 'o', 'n'],
      some ['w', ' '], .standard, []⟩
    Supplies system ['b'] request ['b', '/', 'f'] content ∧
      system.includer ['b'] request = answered ['b', '/', 'f'] (scan .standard
        (['\n'].intercalate ([first, remark, second].filter fun line => ¬IsComment line))) ∧
      system.includer ['b'] request =
        .ok ⟨['b', '/', 'f'], [.pair ['a'] ['1', '\n', '2']]⟩ := by
  intro opened remark marker first second again closed content system request
  have hsupplies : Supplies system ['b'] request ['b', '/', 'f'] content :=
    ⟨by cbv, by simp [request], rfl⟩
  have hwritten : WrittenAs ([opened, remark] ++ marker :: ([first, remark, second] ++
      [again, closed])) content := by
    refine .cons ?_ (.cons ?_ (.cons ?_ (.cons ?_ (.cons ?_ (.cons ?_ (.cons ?_ (.last ?_ ?_)))))))
    all_goals simp [IsLine, opened, remark, marker, first, second, again, closed]
  have hname : IsTrimmed ['w'] := ⟨by simp; decide, by simp; decide⟩
  have hspace : IsGap [' '] := by simp [IsGap, isBlank_space]
  have hnone {line : Text} (h : Extract.sectionName? line = none) : ∀ any, ¬IsMarker any line :=
    Extract.sectionName?_eq_none_iff.mp h
  have hbefore : ∀ line ∈ [opened, remark], ¬IsMarker ['w'] line := by
    simp only [List.forall_mem_cons]
    exact ⟨hnone (by decide) ['w'], hnone (by decide) ['w'], by simp⟩
  have hbody : ∀ line ∈ [first, remark, second], ∀ any, ¬IsMarker any line := by
    simp only [List.forall_mem_cons]
    exact ⟨hnone (by decide), hnone (by decide), hnone (by decide), by simp⟩
  have hmarker : IsMarker ['w'] marker :=
    ⟨[' '], [' '], [' '], hspace, hspace, hspace, rfl⟩
  have hrest : ∀ next ∈ [again, closed].head?, ∃ any, IsMarker any next := by
    rintro _ ⟨⟩
    exact ⟨['w'], [], [], [], isGap_nil, isGap_nil, isGap_nil, rfl⟩
  refine ⟨hsupplies, ?_, by cbv⟩
  exact includer_section hsupplies rfl (by decide) hname isGap_nil hspace rfl hwritten hbefore
    hmarker hbody hrest

end FileSystem

end ParamLang
