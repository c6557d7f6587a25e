import ParamLang.Proofs.Parameter.Checked
import ParamLang.Proofs.Registry.Repeatable

/-! Lists of typed values. The number of the elements is checked first, then that no reference is
left in one of them, and only then what each of them is read as, in order. -/
namespace ParamLang

/-- A text that is a word of small letters, but with any of them written large. -/
def Text.IsCased (word t : Text) : Prop :=
  List.Forall₂ (fun w c => c = w ∨ c = w.toUpper) word t

lemma toLower_eq_iff {w c : Char} (hw : w.isLower = true) :
    c.toLower = w ↔ c = w ∨ c = w.toUpper := by
  have hfixed : w.toLower = w := Char.toLower_eq_of_not_isUpper (Char.not_isUpper_of_isLower hw)
  constructor
  · rintro rfl
    by_cases hc : c.isUpper = true
    · right
      rw [Char.toUpper_toLower_eq_toUpper,
        Char.toUpper_eq_of_not_isLower (Char.not_isLower_of_isUpper hc)]
    · exact .inl (Char.toLower_eq_of_not_isUpper hc).symm
  · rintro (rfl | rfl)
    · exact hfixed
    · rw [Char.toLower_toUpper_eq_toLower, hfixed]

lemma Text.isWord_iff {word t : Text} (hword : ∀ w ∈ word, w.isLower = true) :
    Text.isWord word t = true ↔ Text.IsCased word t := by
  rw [isWord, beq_iff_eq, IsCased]
  induction word generalizing t with
  | nil => simp
  | cons w word ih =>
    cases t with
    | nil => simp
    | cons c t =>
      have hrest := ih (t := t) fun w' hw' => hword w' (List.mem_cons_of_mem w hw')
      simp [toLower_eq_iff (hword w (by simp)), hrest]

/-- The words for truth values are read in any case, and nothing else is. -/
lemma Reading.boolean_eq_some_iff {t : Text} {b : Bool} : Reading.boolean.read t = some b ↔
    Text.IsCased (if b then Cell.onText else Cell.offText) t := by
  have hon : ∀ w ∈ Cell.onText, w.isLower = true := by simp [Cell.onText]
  have hoff : ∀ w ∈ Cell.offText, w.isLower = true := by simp [Cell.offText]
  have hdistinct : Text.isWord Cell.onText t = true → Text.isWord Cell.offText t = false := by
    intro h
    rw [Text.isWord, beq_iff_eq] at h
    rw [Text.isWord, h]
    decide
  change readBoolean? t = some b ↔ _
  unfold readBoolean?
  cases b with
  | true => simp [← Text.isWord_iff hon]
  | false =>
    simp only [Bool.false_eq_true, if_false, ← Text.isWord_iff hoff]
    grind

namespace View

variable {α : Type}

/-- The answers to the elements of a list: a wrong number of them is reported before the first one
with a reference, and this one before the first one that is not of the type. -/
inductive AnswersAll (v : View) (reading : Reading α) (range : SizeRange) (values : List Text) :
    Except Fault (List α) → Prop
  | wrongSize (hsize : range.allows values.length = false) :
      AnswersAll v reading range values (.error (range.violation v.name values.length))
  | unresolved {before after : List Text} {bad : Text}
      (hsize : range.allows values.length = true) (hvalues : values = before ++ bad :: after)
      (hbefore : ∀ t ∈ before, v.hasReferences t = false) (hbad : v.hasReferences bad = true) :
      AnswersAll v reading range values (.error (.unresolvedVariable v.name bad))
  | unreadable {before after : List Text} {bad : Text}
      (hsize : range.allows values.length = true)
      (hfree : ∀ t ∈ values, v.hasReferences t = false) (hvalues : values = before ++ bad :: after)
      (hbefore : ∀ t ∈ before, (reading.read t).isSome = true) (hbad : reading.read bad = none) :
      AnswersAll v reading range values
        (.error (.conversionFailed v.name (some before.length) bad reading.target))
  | converted {results : List α} (hsize : range.allows values.length = true)
      (hfree : ∀ t ∈ values, v.hasReferences t = false)
      (hread : List.Forall₂ (fun t a => reading.read t = some a) values results) :
      AnswersAll v reading range values (.ok results)

variable {v : View} {reading : Reading α} {range : SizeRange} {values before after : List Text}
variable {bad : Text} {results : List α} {answer : Except Fault (List α)}

lemma convertFrom_of_forall₂ (hread : List.Forall₂ (fun t a => reading.read t = some a) values
    results) (index : Nat) : v.convertFrom reading index values = .ok results := by
  induction hread generalizing index with
  | nil => rfl
  | cons hfirst _ ih => simp [convertFrom, convert, hfirst, ih]

/-- The first element that is not of the type is reported with its place among all of them. -/
lemma convertFrom_of_unreadable (hbefore : ∀ t ∈ before, (reading.read t).isSome = true)
    (hbad : reading.read bad = none) (index : Nat) :
    v.convertFrom reading index (before ++ bad :: after) =
      .error (.conversionFailed v.name (some (index + before.length)) bad reading.target) := by
  induction before generalizing index with
  | nil => simp [convertFrom, convert, hbad]
  | cons t before ih =>
    obtain ⟨a, ha⟩ := Option.isSome_iff_exists.mp (hbefore t (by simp))
    have hrest := ih (fun u hu => hbefore u (List.mem_cons_of_mem t hu)) (index + 1)
    have hplace : index + 1 + before.length = index + (t :: before).length := by
      rw [List.length_cons]
      omega
    rw [hplace] at hrest
    simp [convertFrom, convert, ha, hrest]

/-- Either each text is read as a value, or there is a first one that is not. -/
lemma readable_or_first (reading : Reading α) (values : List Text) :
    (∃ results, List.Forall₂ (fun t a => reading.read t = some a) values results) ∨
      ∃ before bad after, values = before ++ bad :: after ∧
        (∀ t ∈ before, (reading.read t).isSome = true) ∧ reading.read bad = none := by
  induction values with
  | nil => exact .inl ⟨[], .nil⟩
  | cons t values ih =>
    cases hread : reading.read t with
    | none => exact .inr ⟨[], t, values, rfl, by simp, hread⟩
    | some a =>
      obtain ⟨results, hresults⟩ | ⟨before, bad, after, rfl, hbefore, hbad⟩ := ih
      · exact .inl ⟨a :: results, .cons hread hresults⟩
      · exact .inr ⟨t :: before, bad, after, rfl, by simpa [hread] using hbefore, hbad⟩

lemma answersAll_exists (v : View) (reading : Reading α) (range : SizeRange)
    (values : List Text) : ∃ answer, v.AnswersAll reading range values answer := by
  cases hsize : range.allows values.length with
  | false => exact ⟨_, .wrongSize hsize⟩
  | true =>
    cases hfind : values.find? v.hasReferences with
    | some bad =>
      obtain ⟨hbad, before, after, hvalues, hbefore⟩ := List.find?_eq_some_iff_append.mp hfind
      exact ⟨_, .unresolved hsize hvalues (by simpa using hbefore) hbad⟩
    | none =>
      have hfree : ∀ t ∈ values, v.hasReferences t = false := by simpa using hfind
      obtain ⟨results, hresults⟩ | ⟨before, bad, after, hvalues, hbefore, hbad⟩ :=
        readable_or_first reading values
      · exact ⟨_, .converted hsize hfree hresults⟩
      · exact ⟨_, .unreadable hsize hfree hvalues hbefore hbad⟩

lemma AnswersAll.getAll_eq (helements : v.rawElements = .ok values)
    (h : v.AnswersAll reading range values answer) : v.getAll reading range = answer := by
  cases h with
  | wrongSize hsize => simp [getAll, texts, helements, SizeRange.check, hsize]
  | @unresolved before after bad hsize hvalues hbefore hbad =>
    have hfind : values.find? v.hasReferences = some bad :=
      List.find?_eq_some_iff_append.mpr ⟨hbad, before, after, hvalues, by simpa using hbefore⟩
    simp [getAll, texts, helements, SizeRange.check, hsize, hfind]
  | unreadable hsize hfree hvalues hbefore hbad =>
    have htexts : v.texts range = .ok values := texts_eq_ok_iff.mpr ⟨helements, hsize, hfree⟩
    rw [getAll, htexts, ok_bind, hvalues, convertFrom_of_unreadable hbefore hbad, Nat.zero_add]
  | converted hsize hfree hread =>
    have htexts : v.texts range = .ok values := texts_eq_ok_iff.mpr ⟨helements, hsize, hfree⟩
    rw [getAll, htexts, ok_bind, convertFrom_of_forall₂ hread]

lemma getAll_eq_iff (helements : v.rawElements = .ok values) :
    v.getAll reading range = answer ↔ v.AnswersAll reading range values answer := by
  obtain ⟨given, hgiven⟩ := v.answersAll_exists reading range values
  have hall := hgiven.getAll_eq helements
  constructor
  · rintro rfl
    exact hall ▸ hgiven
  · exact AnswersAll.getAll_eq helements

end View

namespace Registry

lemma view_eq_ok_iff {r : Registry} {name : Text} {v : View} : r.view name = .ok v ↔
    ∃ place c, r.memory.names.find? name = some place ∧ r.memory.cells[place]? = some c ∧
      v = ⟨name, c, r.settings.marks⟩ := by
  unfold view Memory.cell?
  cases hplace : r.memory.names.find? name with
  | none => simp
  | some place => cases hcell : r.memory.cells[place]? <;> simp [hcell, eq_comm]

/-- Whatever is performed under the same marks, a repeatable parameter is read as a list of the
values stored to its cell, under any of its names, since that was last cleared. A value is a truth
value if it is the word for one, in any case. -/
theorem getAll_eq_iff_answersAll {settings : Settings} {operations : List Operation} {name : Text}
    {v : View} (hmarks : ∀ marks, .useMarks marks ∈ operations → marks = settings.marks)
    (hview : (performAll ⟨settings, .empty⟩ operations).view name = .ok v)
    (hrep : v.cell.repeatable = true) :
    (∃ place, (performAll ⟨settings, .empty⟩ operations).memory.names.find? name = some place ∧
      ∀ (α : Type) (reading : Reading α) (range : SizeRange) (answer : Except Fault (List α)),
        v.getAll reading range = answer ↔ v.AnswersAll reading range
          (storedSince place (happenings ⟨settings, .empty⟩ operations)) answer) ∧
    ∀ t b, Reading.boolean.read t = some b ↔
      Text.IsCased (if b then Cell.onText else Cell.offText) t := by
  have hempty : Memory.empty.Lists settings.marks (storedSince · []) := .empty _
  obtain ⟨hkept, hlists⟩ := performAll_lists (r := ⟨settings, .empty⟩) hmarks hempty
  obtain ⟨place, c, hplace, hcell, rfl⟩ := view_eq_ok_iff.mp hview
  refine ⟨⟨place, hplace, fun α reading range answer => ?_⟩, fun t b =>
    Reading.boolean_eq_some_iff⟩
  rw [hkept]
  exact View.getAll_eq_iff ((hlists.listed place c hcell hrep).rawElements_eq name)

/-- A list of numbers, given under two names and after a reset, of which the second is none. -/
theorem getAll_eq_iff_answersAll_unreadable :
    let r : Registry := ⟨.standard, .empty⟩
    let operations : List Operation := [.defineRepeatable ['n'], .addAlias ['n'] ['m'],
      .parse ['n', '=', 'x'], .reset, .parse ['n', '=', '1', ' ', 'm', '=', '[', 'x', ' ', ']']]
    let v : View := ⟨['m'], ⟨some ['[', '1', ']', ' ', '[', 'x', ' ', ']'], some [], true⟩,
      .standard⟩
    (r.performAll operations).view ['m'] = .ok v ∧ v.getAll .integer .any =
      .error (.conversionFailed ['m'] (some 1) ['x', ' '] "integer") := by
  intro r operations v
  have hmarks : ∀ marks, Operation.useMarks marks ∈ operations → marks = r.settings.marks := by
    simp [operations]
  have hview : (r.performAll operations).view ['m'] = .ok v := by cbv
  obtain ⟨⟨place, hplace, hanswers⟩, -⟩ := getAll_eq_iff_answersAll hmarks hview rfl
  have hfirst : (r.performAll operations).memory.names.find? ['m'] = some 0 := by cbv
  obtain rfl : 0 = place := Option.some.inj (hfirst.symm.trans hplace)
  have hvalues : storedSince 0 (r.happenings operations) = [['1'], ['x', ' ']] := by cbv
  refine ⟨hview, (hanswers Int .integer .any _).mpr ?_⟩
  have hone : v.hasReferences ['1'] = false := by cbv
  have hword : v.hasReferences ['x', ' '] = false := by cbv
  have hread : (Reading.integer.read ['1']).isSome = true := by cbv
  have hunread : Reading.integer.read ['x', ' '] = none := by cbv
  rw [hvalues]
  exact .unreadable rfl (by simp [hone, hword]) (show _ = [['1']] ++ ['x', ' '] :: [] from rfl)
    (by simp [hread]) hunread

end Registry

end ParamLang
