import ParamLang.Inclusion.Extract
import ParamLang.Proofs.Layout

/-! The lines of a file: how it is written as lines, and what kinds of lines there are. A comment
line has a hash mark as its first character that is not blank, and a marker line has three dashes
there and a name behind them. -/
namespace ParamLang

namespace Text

variable {line t gap gap' : Text} {ls : List Text}

def IsLine (line : Text) : Prop := '\n' ∉ line ∧ '\r' ∉ line

/-- A text is written as lines, each with a line feed behind it. The last one may lack it. -/
inductive WrittenAs : List Text → Text → Prop
  | nil : WrittenAs [] []
  | last {line : Text} (hline : IsLine line) (hne : line ≠ []) : WrittenAs [line] line
  | cons {line t : Text} {ls : List Text} (hline : IsLine line) (rest : WrittenAs ls t) :
      WrittenAs (line :: ls) (line ++ '\n' :: t)

lemma pieces_of_line (h : '\n' ∉ line) : pieces isLineFeed line = [line] := by
  induction line with
  | nil => rfl
  | cons c line ih =>
    obtain ⟨hc, hline⟩ := not_or.mp (List.mem_cons.not.mp h)
    simp [pieces, isLineFeed, Ne.symm hc, ih hline]

lemma pieces_line_append (h : '\n' ∉ line) (t : Text) :
    pieces isLineFeed (line ++ '\n' :: t) = line :: pieces isLineFeed t := by
  induction line with
  | nil => rfl
  | cons c line ih =>
    obtain ⟨hc, hline⟩ := not_or.mp (List.mem_cons.not.mp h)
    simp [pieces, isLineFeed, Ne.symm hc, ih hline]

lemma dropFinalReturn_of_line (h : '\r' ∉ line) : dropFinalReturn line = line := by
  refine if_neg fun hlast => h ?_
  exact List.mem_of_getLast? hlast

lemma lines_line_append (h : IsLine line) (t : Text) :
    lines (line ++ '\n' :: t) = line :: lines t := by
  obtain ⟨p, ps, hps⟩ := List.exists_cons_of_ne_nil (pieces_ne_nil isLineFeed t)
  simp only [lines, pieces_line_append h.1, hps, List.dropLast_cons_cons, List.map_cons,
    dropFinalReturn_of_line h.2, List.getLast?_cons_cons, List.cons_append]

lemma WrittenAs.lines_eq (h : WrittenAs ls t) : lines t = ls := by
  induction h with
  | nil => rfl
  | last hline hne => simp [lines, pieces_of_line hline.1, hne]
  | cons hline rest ih => rw [lines_line_append hline, ih]

/-- A text without carriage returns is written as lines. -/
lemma exists_writtenAs (h : '\r' ∉ t) : ∃ ls, WrittenAs ls t := by
  induction t with
  | nil => exact ⟨[], .nil⟩
  | cons c t ih =>
    obtain ⟨hc, ht⟩ := not_or.mp (List.mem_cons.not.mp h)
    obtain ⟨ls, hls⟩ := ih ht
    by_cases hfeed : c = '\n'
    · subst hfeed
      exact ⟨[] :: ls, .cons (by simp [IsLine]) hls⟩
    · have hcons {line : Text} (hline : IsLine line) : IsLine (c :: line) := by
        simp [IsLine, Ne.symm hfeed, hc, hline.1, hline.2]
      cases hls with
      | nil => exact ⟨[[c]], .last (hcons (by simp [IsLine])) (List.cons_ne_nil _ _)⟩
      | last hline hne => exact ⟨_, .last (hcons hline) (List.cons_ne_nil _ _)⟩
      | cons hline rest => exact ⟨_, .cons (hcons hline) rest⟩

/-- What is left of a text without the line feed that may end it. -/
def withoutFinalFeed (t : Text) : Text := if t.getLast? = some '\n' then t.dropLast else t

lemma withoutFinalFeed_append (t : Text) : withoutFinalFeed (t ++ ['\n']) = t := by
  simp [withoutFinalFeed]

lemma withoutFinalFeed_of_ne {c : Char} (hc : c ≠ '\n') (t : Text) :
    withoutFinalFeed (t ++ [c]) = t ++ [c] := by
  simp [withoutFinalFeed, hc]

lemma withoutFinalFeed_line_append (line : Text) (ht : t ≠ []) :
    withoutFinalFeed (line ++ '\n' :: t) = line ++ '\n' :: withoutFinalFeed t := by
  obtain ⟨front, c, rfl⟩ := (List.eq_nil_or_concat' t).resolve_left ht
  have hconcat : line ++ '\n' :: (front ++ [c]) = (line ++ '\n' :: front) ++ [c] := by simp
  obtain rfl | hc := eq_or_ne c '\n'
  · rw [hconcat, withoutFinalFeed_append, withoutFinalFeed_append]
  · rw [hconcat, withoutFinalFeed_of_ne hc, withoutFinalFeed_of_ne hc, hconcat]

lemma joinLines_cons_cons (line l : Text) (ls : List Text) :
    joinLines (line :: l :: ls) = line ++ '\n' :: joinLines (l :: ls) := by
  simp [joinLines, List.intercalate]

/-- Lines that are joined again make up what they were cut from, but for a line feed at its end. -/
lemma WrittenAs.joinLines_eq (h : WrittenAs ls t) : joinLines ls = withoutFinalFeed t := by
  induction h with
  | nil => rfl
  | @last line hline hne =>
    have hlast : line.getLast? ≠ some '\n' := fun hlast => hline.1 (List.mem_of_getLast? hlast)
    simp [joinLines, withoutFinalFeed, hlast]
  | @cons line t ls hline rest ih =>
    cases ls with
    | nil =>
      cases rest
      simp [joinLines, withoutFinalFeed_append]
    | cons l ls =>
      have hne : t ≠ [] := by cases rest <;> simp_all
      rw [joinLines_cons_cons, ih, withoutFinalFeed_line_append line hne]

/-- A text with no blank at either end. -/
structure IsTrimmed (t : Text) : Prop where
  first : ∀ c ∈ t.head?, isBlank c = false
  last : ∀ c ∈ t.getLast?, isBlank c = false

lemma trimStart_gap_append (hgap : gap.IsGap) (t : Text) : trimStart (gap ++ t) = trimStart t :=
  List.dropWhile_append_of_pos hgap

lemma trimStart_of_first (h : ∀ c ∈ t.head?, isBlank c = false) : trimStart t = t := by
  cases t with
  | nil => rfl
  | cons c t => exact List.dropWhile_cons_of_neg (by simp [h c rfl])

lemma exists_trimStart (t : Text) : ∃ gap : Text, gap.IsGap ∧ t = gap ++ trimStart t := by
  refine ⟨t.takeWhile isBlank, ?_, (List.takeWhile_append_dropWhile (p := isBlank)).symm⟩
  intro c hc
  exact List.mem_takeWhile_imp hc

lemma first_trimStart (t : Text) : ∀ c ∈ (trimStart t).head?, isBlank c = false := by
  intro c hc
  have hnot := List.head?_dropWhile_not isBlank t
  rw [trimStart, Option.mem_def] at hc
  simpa [hc] using hnot

lemma IsGap.reverse (h : gap.IsGap) : IsGap gap.reverse := fun c hc => h c (List.mem_reverse.mp hc)

lemma trimEnd_eq (t : Text) : trimEnd t = (trimStart t.reverse).reverse := rfl

/-- Blanks around a trimmed text are what is cut off. -/
lemma trim_eq (hgap : gap.IsGap) (ht : t.IsTrimmed) (hgap' : gap'.IsGap) :
    trim (gap ++ t ++ gap') = t := by
  have hlast : ∀ c ∈ t.reverse.head?, isBlank c = false := by
    rw [List.head?_reverse]
    exact ht.last
  have hend : trimEnd (t ++ gap') = t := by
    rw [trimEnd_eq, List.reverse_append, trimStart_gap_append hgap'.reverse,
      trimStart_of_first hlast, List.reverse_reverse]
  rw [trim, List.append_assoc, trimStart_gap_append hgap]
  cases t with
  | nil =>
    have hnone : trimStart gap' = [] := by
      have happend := trimStart_gap_append hgap' []
      rwa [List.append_nil] at happend
    rw [List.nil_append, hnone]
    rfl
  | cons c t => rw [trimStart_of_first (t := c :: t ++ gap') ht.first, hend]

lemma exists_trimEnd (t : Text) : ∃ gap : Text, gap.IsGap ∧ t = trimEnd t ++ gap := by
  obtain ⟨gap, hgap, hend⟩ := exists_trimStart t.reverse
  refine ⟨gap.reverse, hgap.reverse, ?_⟩
  rw [trimEnd_eq, ← List.reverse_append, ← hend, List.reverse_reverse]

/-- All that is cut off from a text are blanks around it. -/
lemma exists_trim (t : Text) :
    ∃ gap gap' : Text, gap.IsGap ∧ gap'.IsGap ∧ t = gap ++ trim t ++ gap' := by
  obtain ⟨gap, hgap, hstart⟩ := exists_trimStart t
  obtain ⟨gap', hgap', hend⟩ := exists_trimEnd (trimStart t)
  exact ⟨gap, gap', hgap, hgap', by rw [List.append_assoc, trim, ← hend, ← hstart]⟩

lemma isTrimmed_trim (t : Text) : (trim t).IsTrimmed where
  first := by
    intro c hc
    obtain ⟨gap, -, hend⟩ := exists_trimEnd (trimStart t)
    have hfirst := first_trimStart t
    rw [hend, List.head?_append, ← trim, Option.mem_def.mp hc] at hfirst
    exact hfirst c rfl
  last := by
    rw [trim, trimEnd_eq, List.getLast?_reverse]
    exact first_trimStart _

lemma IsGap.append (h : gap.IsGap) (h' : gap'.IsGap) : IsGap (gap ++ gap') :=
  fun c hc => (List.mem_append.mp hc).elim (h c) (h' c)

lemma trim_trimEnd (t : Text) : trim (trimEnd t) = trim t := by
  obtain ⟨behind, hbehind, ht⟩ := exists_trimEnd t
  obtain ⟨before, after, hbefore, hafter, hend⟩ := exists_trim (trimEnd t)
  have hsplit : t = before ++ trim (trimEnd t) ++ (after ++ behind) := by
    rw [← List.append_assoc, ← hend, ← ht]
  have htrim := trim_eq hbefore (isTrimmed_trim (trimEnd t)) (hafter.append hbehind)
  rw [← hsplit] at htrim
  exact htrim.symm

lemma trimEnd_cons {c : Char} (hc : isBlank c = false) (t : Text) :
    trimEnd (c :: t) = c :: trimEnd t := by
  simp only [trimEnd, List.reverse_cons, List.dropWhile_append]
  cases hdrop : t.reverse.dropWhile isBlank <;> simp [hc]

/-- The first character of the line that is not blank is a hash mark. -/
def IsComment (line : Text) : Prop := ∃ gap rest : Text, gap.IsGap ∧ line = gap ++ '#' :: rest

/-- The line has three dashes and a name on it, with blanks around either. -/
def IsMarker (name line : Text) : Prop :=
  ∃ before between after : Text, before.IsGap ∧ between.IsGap ∧ after.IsGap ∧
    line = before ++ '-' :: '-' :: '-' :: (between ++ name ++ after)

lemma isComment_iff : Extract.isComment line = true ↔ IsComment line := by
  rw [Extract.isComment, beq_iff_eq]
  constructor
  · intro h
    obtain ⟨gap, hgap, hline⟩ := exists_trimStart line
    obtain ⟨rest, hrest⟩ := List.head?_eq_some_iff.mp h
    exact ⟨gap, rest, hgap, by rw [← hrest, ← hline]⟩
  · rintro ⟨gap, rest, hgap, rfl⟩
    rw [trimStart_gap_append hgap, trimStart_of_first (by simp; decide)]
    rfl

instance : DecidablePred IsComment := fun _ => decidable_of_iff _ isComment_iff

/-- A marker does not become a comment by what is on it, nor a comment a marker. -/
lemma IsMarker.not_isComment {name : Text} (h : IsMarker name line) : ¬IsComment line := by
  obtain ⟨before, between, after, hbefore, -, -, rfl⟩ := h
  rw [← isComment_iff, Extract.isComment, trimStart_gap_append hbefore,
    trimStart_of_first (by simp; decide)]
  simp

end Text

namespace Extract

open Text

variable {line name : Text}

lemma sectionName?_dashes {gap : Text} (hgap : gap.IsGap) (rest : Text) :
    sectionName? (gap ++ '-' :: '-' :: '-' :: rest) = some (trim rest) := by
  have hdash : isBlank '-' = false := by decide
  have htrim : trim (gap ++ '-' :: '-' :: '-' :: rest) = '-' :: '-' :: '-' :: trimEnd rest := by
    rw [trim, trimStart_gap_append hgap, trimStart_of_first (by simp [hdash])]
    simp only [trimEnd_cons hdash]
  rw [sectionName?, htrim]
  exact congrArg some (trim_trimEnd rest)

lemma sectionName?_eq_some_iff :
    sectionName? line = some name ↔ name.IsTrimmed ∧ IsMarker name line := by
  constructor
  · intro h
    obtain ⟨before, after, hbefore, hafter, hline⟩ := exists_trim line
    simp only [sectionName?] at h
    split at h
    · rename_i tail htail
      obtain rfl := Option.some.inj h
      obtain ⟨between, behind, hbetween, hbehind, hname⟩ := exists_trim tail
      refine ⟨isTrimmed_trim tail, before, between, behind ++ after, hbefore, hbetween,
        hbehind.append hafter, ?_⟩
      rw [← List.append_assoc, ← hname, hline, htail]
      simp
    · cases h
  · rintro ⟨hname, before, between, after, hbefore, hbetween, hafter, rfl⟩
    rw [sectionName?_dashes hbefore, trim_eq hbetween hname hafter]

lemma sectionName?_eq_none_iff : sectionName? line = none ↔ ∀ name, ¬IsMarker name line := by
  constructor
  · rintro h name ⟨before, between, after, hbefore, -, -, rfl⟩
    rw [sectionName?_dashes hbefore] at h
    cases h
  · intro h
    cases hname : sectionName? line with
    | none => rfl
    | some name => exact absurd (sectionName?_eq_some_iff.mp hname).2 (h name)

end Extract

end ParamLang
