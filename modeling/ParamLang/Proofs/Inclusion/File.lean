import ParamLang.Proofs.FileSystem
import ParamLang.Proofs.Inclusion.Lines
import ParamLang.Proofs.Trailing

/-! The inclusion of a whole file. Its lines are put together again as they were, but for a line
feed at the end of the file, so it is read as if it stood in place of the inclusion. Only where that
line feed is escaped it would have been needed, and what is left of it is an escape at the end. -/
namespace ParamLang

variable {m : Marks} {t : Text}

/-- A text ends with a line feed that an escape in front of it takes along. -/
def Marks.EscapesFinalFeed (m : Marks) (t : Text) : Prop :=
  t.getLast? = some '\n' ∧ m.endsEscaped t.dropLast = true

instance : Decidable (m.EscapesFinalFeed t) := inferInstanceAs (Decidable (_ ∧ _))

lemma SameReading.scan_self (m : Marks) (t : Text) : SameReading (scan m t) (scan m t) := by
  cases hscan : scan m t with
  | ok es => exact .entries es
  | error fault =>
    obtain ⟨kind, position, shown, rfl, -⟩ := scan_points hscan
    exact .fault kind position position shown shown

/-- A line feed at the end of a fragment is one of the blanks behind it, unless it is escaped. -/
lemma scan_withoutFinalFeed (m : Marks) (t : Text) :
    (¬m.EscapesFinalFeed t → SameReading (scan m t) (scan m t.withoutFinalFeed)) ∧
      (m.EscapesFinalFeed t → (∃ fault, scan m t.withoutFinalFeed = .error fault) ∧
        (SameReading (scan m t) (scan m t.withoutFinalFeed) ∨ ∃ position shown,
          scan m t.withoutFinalFeed = .error (.misread .danglingEscape position shown))) := by
  have hfeed : Text.IsGap ['\n'] := by simp [Text.IsGap, Text.isBlank_lineFeed]
  by_cases hlast : t.getLast? = some '\n'
  · obtain ⟨front, rfl⟩ := List.getLast?_eq_some_iff.mp hlast
    simp only [Marks.EscapesFinalFeed, hlast, true_and, List.dropLast_concat,
      Text.withoutFinalFeed_append]
    constructor
    · intro hescaped
      exact scan_append_gap_of_not_endsEscaped hfeed (Bool.eq_false_iff.mpr hescaped)
    · exact fun hescaped => ⟨scan_of_endsEscaped hescaped, scan_append_gap hfeed⟩
  · rw [Text.withoutFinalFeed, if_neg hlast]
    exact ⟨fun _ => .scan_self m t, fun hescaped => absurd hescaped.1 hlast⟩

namespace FileSystem

variable {system : FileSystem} {base source content fragment : Text} {request : InclusionRequest}

/-- A request asks for a source with the given content that is not being included already. -/
structure Supplies (system : FileSystem) (base : Text) (request : InclusionRequest)
    (source content : Text) : Prop where
  canonical : system.canonical (locate base request.chain request.file) = .ok source
  fresh : source ∉ request.chain
  read : system.read source = .ok content

/-- What is answered when a reading of the source has come to its end. -/
def answered (source : Text) : Except Fault (List Entry) → Except InclusionFault Included
  | .ok entries => .ok ⟨source, entries⟩
  | .error fault => .error (.malformed fault)

lemma Supplies.includer_eq (h : Supplies system base request source content)
    (hnames : request.names = none)
    (hfragment : Extract.fragment content request.extractor request.extractorParameters =
      .ok fragment) :
    system.includer base request = answered source (scan request.marks fragment) := by
  simp only [FileSystem.includer_eq, h.canonical, contents, h.read, unreadable, ok_bind, hfragment,
    if_neg h.fresh, InclusionRequest.scan, InclusionRequest.select, hnames]
  cases scan request.marks fragment <;> rfl

/-- All that extraction takes from a file without comments is the line feed that ends it. -/
lemma fragment_whole {extractor parameters : Option Text}
    (hall : ∀ e ∈ extractor, Text.trim e = ['a', 'l', 'l']) (hreturn : '\r' ∉ content)
    (hcomment : ∀ ls, Text.WrittenAs ls content → ∀ line ∈ ls, ¬Text.IsComment line) :
    Extract.fragment content extractor parameters = .ok content.withoutFinalFeed := by
  obtain ⟨ls, hlines⟩ := Text.exists_writtenAs hreturn
  have hkept : ls.filter (fun line => !Extract.isComment line) = ls := by
    rw [List.filter_eq_self]
    intro line hline
    have hnot := hcomment ls hlines line hline
    rwa [← Text.isComment_iff, Bool.not_eq_true, ← Bool.not_eq_true'] at hnot
  have hchosen : Text.trim (extractor.getD Extract.allName) = Extract.allName := by
    cases extractor with
    | none => decide
    | some e => exact hall e rfl
  rw [Extract.fragment, hlines.lines_eq, hkept, Extract.extract]
  simp only [hchosen, or_true, if_true]
  rw [hlines.joinLines_eq]

/-- A file without comments is answered with what its content reads as, apart from a line feed at
its end. It is read as if it stood in place, with a fault of the same kind if there is one, unless
that line feed is escaped. In that case it cannot be read at all. -/
theorem includer_whole (h : Supplies system base request source content)
    (hnames : request.names = none) (hall : ∀ e ∈ request.extractor, Text.trim e = ['a', 'l', 'l'])
    (hreturn : '\r' ∉ content)
    (hcomment : ∀ ls, Text.WrittenAs ls content → ∀ line ∈ ls, ¬Text.IsComment line) :
    let inPlace := scan request.marks content
    let result := scan request.marks content.withoutFinalFeed
    system.includer base request = answered source result ∧
      (¬request.marks.EscapesFinalFeed content → SameReading inPlace result) ∧
      (request.marks.EscapesFinalFeed content → (∃ fault, result = .error fault) ∧
        (SameReading inPlace result ∨
          ∃ position shown, result = .error (.misread .danglingEscape position shown))) := by
  intro inPlace result
  have hanswer := h.includer_eq hnames (fragment_whole hall hreturn hcomment)
  exact ⟨hanswer, scan_withoutFinalFeed request.marks content⟩

/-- A line feed inside a bracket, and one at the end of the file behind an escape that is escaped
itself. -/
theorem includer_whole_bracketed :
    let content : Text := ['x', '=', '[', '1', '\n', '2', ']', '\\', '\\', '\n']
    let system : FileSystem := ⟨.ok, fun _ => .ok content⟩
    let request : InclusionRequest := ⟨['f'], none, some ['a', 'l', 'l'], none, .standard, []⟩
    let entries : List Entry := [.pair ['x'] ['1', '\n', '2'], .value ['\\']]
    Supplies system ['b'] request ['b', '/', 'f'] content ∧
      scan .standard content = .ok entries ∧
      system.includer ['b'] request = .ok ⟨['b', '/', 'f'], entries⟩ := by
  intro content system request entries
  have hsupplies : Supplies system ['b'] request ['b', '/', 'f'] content :=
    ⟨by cbv, by simp [request], rfl⟩
  have hscan : scan .standard content = .ok entries := by cbv
  have hcomment (ls : List Text) (hls : Text.WrittenAs ls content) :
      ∀ line ∈ ls, ¬Text.IsComment line := by
    have hlines : Text.lines content = [['x', '=', '[', '1'], ['2', ']', '\\', '\\']] := by cbv
    rw [← hls.lines_eq, hlines]
    decide
  obtain ⟨hanswer, hsame, -⟩ :=
    includer_whole hsupplies rfl (by simp [request]; decide) (by decide) hcomment
  have hread : SameReading (scan .standard content) (scan .standard content.withoutFinalFeed) :=
    hsame (by decide)
  rw [hscan] at hread
  change system.includer _ _ = answered _ (scan .standard content.withoutFinalFeed) at hanswer
  generalize scan .standard content.withoutFinalFeed = result at hread hanswer
  cases hread
  exact ⟨hsupplies, hscan, hanswer⟩

/-- An escaped line feed at the end of a file is a character of a value where the file is read in
place, and a fault where the file is included. -/
theorem includer_escaped_feed :
    let content : Text := ['a', '\\', '\n']
    let system : FileSystem := ⟨.ok, fun _ => .ok content⟩
    let request : InclusionRequest := ⟨['f'], none, none, none, .standard, []⟩
    Supplies system ['b'] request ['b', '/', 'f'] content ∧ '\r' ∉ content ∧
      (∀ ls, Text.WrittenAs ls content → ∀ line ∈ ls, ¬Text.IsComment line) ∧
      scan .standard content = .ok [.value ['a', '\n']] ∧
      system.includer ['b'] request =
        .error (.malformed (.misread .danglingEscape 1 ['\\'])) := by
  intro content system request
  refine ⟨⟨by cbv, by simp [request], rfl⟩, by decide, ?_, by cbv, by cbv⟩
  intro ls hls
  have hlines : Text.lines content = [['a', '\\']] := by cbv
  rw [← hls.lines_eq, hlines]
  decide

end FileSystem

end ParamLang
