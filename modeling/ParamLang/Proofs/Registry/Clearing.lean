import ParamLang.Proofs.Registry.Account
import ParamLang.Proofs.Registry.Observation
import ParamLang.Proofs.Registry.Variable
import ParamLang.Proofs.Surroundings

/-! Clearing. A reset goes through the names it is given one by one, so it clears the cells and
unbinds the variables behind them and touches nothing else. At the first name that is nobody's it
ends with a fault, and what stands before that name has been cleared. -/
namespace ParamLang

/-- Names in brackets with a space between them. -/
def quotedNames (m : Marks) (names : List Text) : Text := [' '].intercalate (names.map m.quote)

lemma quotedNames_cons_cons (m : Marks) (name next : Text) (names : List Text) :
    quotedNames m (name :: next :: names) =
      m.quote name ++ ' ' :: quotedNames m (next :: names) := by
  simp [quotedNames, List.intercalate]

lemma elements_quotedNames (m : Marks) (names : List Text) :
    elements m (quotedNames m names) = .ok names := by
  have htext : quotedEntries m (names.map .value) = quotedNames m names := by
    simp [quotedEntries, quotedNames, Entry.quoted, Function.comp_def]
  have htokens : (names.map .value).flatMap Entry.tokens = names.map .literal := by
    simp [List.flatMap_map, Entry.tokens, ← List.map_eq_flatMap]
  rw [← htext, (Layout.quotedEntries m (names.map .value)).elements_eq, htokens, List.map_map]
  exact congrArg Except.ok (List.map_id names)

namespace Resolver

variable {r : Resolver}

lemma any_replaces_pushLiteral (c : Char) (segments : List Segment) :
    (Segment.pushLiteral c segments).any r.replaces = segments.any r.replaces := by
  unfold Segment.pushLiteral
  split <;> simp [replaces]

/-- On either side of a space, what is to be replaced is the same as without the other side. -/
lemma hasWork_append_space (hsigil : isNameChar r.sigil = false) (hspace : r.sigil ≠ ' ')
    (t u : Text) : r.hasWork (t ++ ' ' :: u) = (r.hasWork t || r.hasWork u) := by
  have hread := Segment.reference?_append_space hsigil hspace
  unfold hasWork
  fun_induction Segment.ofText r.sigil t with
  | case1 =>
    have hnone : Segment.reference? r.sigil (' ' :: u) = none :=
      Segment.reference?_of_ne hspace.symm u
    rw [List.nil_append, Segment.ofText_of_literal hnone, any_replaces_pushLiteral, List.any_nil,
      Bool.false_or]
  | case2 c t form name rest h _ ih =>
    have hlong := hread (c :: t) u
    rw [h, Option.map_some] at hlong
    rw [Segment.ofText_of_reference hlong, List.any_cons, ih, List.any_cons, Bool.or_assoc]
  | case3 c t h ih =>
    have hlong := hread (c :: t) u
    rw [h, Option.map_none] at hlong
    rw [List.cons_append] at hlong ⊢
    rw [Segment.ofText_of_literal hlong, any_replaces_pushLiteral, any_replaces_pushLiteral, ih]

lemma hasWork_quotedNames (hsigil : isNameChar r.sigil = false) (hspace : r.sigil ≠ ' ') (m : Marks)
    (names : List Text) :
    r.hasWork (quotedNames m names) = names.any fun name => r.hasWork (m.quote name) := by
  induction names with
  | nil => simp [quotedNames, hasWork]
  | cons name names ih =>
    cases names with
    | nil => simp [quotedNames]
    | cons next names =>
      rw [quotedNames_cons_cons, hasWork_append_space hsigil hspace, ih]
      rfl

end Resolver

lemma Marks.variableOf?_eq_none {m : Marks} {name : Text} (h : ∀ v, name ≠ m.sigil :: v) :
    m.variableOf? name = none :=
  Option.eq_none_iff_forall_ne_some.mpr fun v hv => h v (variableOf?_eq_some_iff.mp hv)

namespace Memory

variable {marks : Marks} {m m' m'' : Memory} {name v : Text} {listed listed' : List Text}
  {place : Nat}

/-- A name is a variable's, bound or not, or a parameter has it. -/
def Knows (m : Memory) (marks : Marks) (name : Text) : Prop :=
  (∃ v, name = marks.sigil :: v) ∨ ∃ place, m.names.find? name = some place

/-- One of the names is a parameter's whose cell is at the place. -/
def Reaches (m : Memory) (marks : Marks) (listed : List Text) (place : Nat) : Prop :=
  ∃ name ∈ listed, name.head? ≠ some marks.sigil ∧ m.names.find? name = some place

/-- What is left when names have been cleared: the cells behind them are unset, the variables among
them are not bound, and all else is as it was. -/
structure Cleared (marks : Marks) (listed : List Text) (m m' : Memory) : Prop where
  names : m'.names = m.names
  history : m'.history = m.history
  bindings : m'.bindings.rows = m.bindings.rows.filter fun row => marks.sigil :: row.1 ∉ listed
  reached : ∀ place, m.Reaches marks listed place →
    m'.cells[place]? = m.cells[place]?.map fun cell => { cell with raw := none }
  kept : ∀ place, ¬m.Reaches marks listed place → m'.cells[place]? = m.cells[place]?

lemma reaches_append : m.Reaches marks (listed ++ listed') place ↔
    m.Reaches marks listed place ∨ m.Reaches marks listed' place := by
  simp only [Reaches, List.mem_append, or_and_right, exists_or]

lemma reaches_congr (h : m'.names = m.names) :
    m'.Reaches marks listed place ↔ m.Reaches marks listed place := by
  rw [Reaches, Reaches, h]

namespace Cleared

lemma nil (marks : Marks) (m : Memory) : m.Cleared marks [] m := by
  refine ⟨rfl, rfl, by simp, ?_, fun _ _ => rfl⟩
  rintro place ⟨name, hname, -⟩
  cases hname

/-- What is cleared one after the other is cleared in the end. -/
lemma append (h : Cleared marks listed m m') (h' : Cleared marks listed' m' m'') :
    Cleared marks (listed ++ listed') m m'' where
  names := h'.names.trans h.names
  history := h'.history.trans h.history
  bindings := by
    rw [h'.bindings, h.bindings, List.filter_filter]
    refine List.filter_congr fun row _ => ?_
    simp [not_or, Bool.and_comm]
  reached := by
    intro place hplace
    by_cases hlater : m.Reaches marks listed' place
    · rw [h'.reached place ((reaches_congr h.names).mpr hlater)]
      by_cases hfirst : m.Reaches marks listed place
      · simp [h.reached place hfirst, Function.comp_def]
      · rw [h.kept place hfirst]
    · rw [h'.kept place fun hreach => hlater ((reaches_congr h.names).mp hreach)]
      exact h.reached place ((reaches_append.mp hplace).resolve_right hlater)
  kept := by
    intro place hplace
    obtain ⟨hfirst, hlater⟩ := not_or.mp fun hreach => hplace (reaches_append.mpr hreach)
    rw [h'.kept place fun hreach => hlater ((reaches_congr h.names).mp hreach)]
    exact h.kept place hfirst

lemma unbind (marks : Marks) (m : Memory) (v : Text) :
    m.Cleared marks [marks.sigil :: v] (m.unbind v) := by
  refine ⟨rfl, rfl, ?_, ?_, fun _ _ => rfl⟩
  · refine List.filter_congr fun row _ => ?_
    by_cases hrow : row.1 = v <;> simp [hrow]
  · rintro place ⟨name, hname, hhead, -⟩
    obtain rfl := List.mem_singleton.mp hname
    exact absurd rfl hhead

lemma clear (hname : name.head? ≠ some marks.sigil) (hplace : m.names.find? name = some place) :
    m.Cleared marks [name] (m.clear place) := by
  have hreaches (p : Nat) : m.Reaches marks [name] p ↔ place = p := by
    simp [Reaches, hname, hplace]
  refine ⟨rfl, rfl, ?_, fun p hp => ?_, fun p hp => ?_⟩
  · refine (List.filter_eq_self.mpr fun row _ => ?_).symm
    have hne : marks.sigil :: row.1 ≠ name := by
      rintro rfl
      exact hname rfl
    simp [hne]
  · obtain rfl := (hreaches p).mp hp
    exact List.getElem?_modify_eq Cell.clear place m.cells
  · exact List.getElem?_modify_ne _ _ fun heq => hp ((hreaches p).mpr heq)

/-- Which names are cleared decides what is left, not in what order or how often. -/
lemma unique (hsame : ∀ name, name ∈ listed' ↔ name ∈ listed) (h : Cleared marks listed m m')
    (h' : Cleared marks listed' m m'') : m'' = m' := by
  have hreaches (place : Nat) : m.Reaches marks listed' place ↔ m.Reaches marks listed place := by
    simp only [Reaches, hsame]
  have hcells : m''.cells = m'.cells := by
    refine List.ext_getElem? fun place => ?_
    by_cases hplace : m.Reaches marks listed place
    · rw [h.reached place hplace, h'.reached place ((hreaches place).mpr hplace)]
    · rw [h.kept place hplace, h'.kept place fun hp => hplace ((hreaches place).mp hp)]
  have hrows : m''.bindings.rows = m'.bindings.rows := by
    rw [h.bindings, h'.bindings]
    simp only [hsame]
  obtain ⟨cells, names, ⟨rows, _⟩, history⟩ := m'
  obtain ⟨cells'', names'', ⟨rows'', _⟩, history''⟩ := m''
  obtain rfl : cells'' = cells := hcells
  obtain rfl : rows'' = rows := hrows
  obtain rfl : names'' = names := h'.names.trans h.names.symm
  obtain rfl : history'' = history := h'.history.trans h.history.symm
  rfl

end Cleared

lemma knows_congr (h : m'.names = m.names) : m'.Knows marks name ↔ m.Knows marks name := by
  rw [Knows, Knows, h]

end Memory

/-- A cell is cleared or a variable unbound. -/
def Event.Clears : Event → Prop
  | .cleared _ => True
  | .unbound _ => True
  | _ => False

/-- Where names are cleared, nothing is dumped and no source is asked for. -/
lemma Outcome.silent_of_clears {o : Outcome} (h : o.Only Event.Clears) :
    o.dumped = [] ∧ o.requests = [] := by
  have hnone {α : Type} {f : Event → Option α} (hcleared : ∀ place, f (.cleared place) = none)
      (hunbound : ∀ v, f (.unbound v) = none) : o.events.filterMap f = [] := by
    refine List.filterMap_eq_nil_iff.mpr fun event hevent => ?_
    have hclears := h event hevent
    cases event with
    | cleared place => exact hcleared place
    | unbound v => exact hunbound v
    | _ => cases hclears
  exact ⟨hnone (fun _ => rfl) fun _ => rfl, hnone (fun _ => rfl) fun _ => rfl⟩

namespace Interpret

open Outcome

variable {s : Settings} {depth : Nat} {chain : List Text} {m : Memory} {name : Text}
  {names : List Text}

lemma resetName_clears (s : Settings) (name : Text) (m : Memory) :
    (resetName s name m).Only Event.Clears := by
  unfold resetName
  split
  · exact only_noted trivial _
  · exact only_attempt fun place => only_noted trivial _

lemma resetName_known (h : m.Knows s.marks name) :
    ∃ e m', resetName s name m = noted [e] m' ∧ m.Cleared s.marks [name] m' := by
  by_cases hhead : name.head? = some s.marks.sigil
  · obtain ⟨v, rfl⟩ := List.head?_eq_some_iff.mp hhead
    exact ⟨_, _, resetName_variable s v m, .unbind s.marks m v⟩
  · have hnone : s.marks.variableOf? name = none :=
      Marks.variableOf?_eq_none fun v hv => hhead (hv ▸ rfl)
    obtain ⟨v, rfl⟩ | ⟨place, hplace⟩ := h
    · exact absurd rfl hhead
    · refine ⟨.cleared place, m.clear place, ?_, .clear hhead hplace⟩
      rw [resetName, hnone, Memory.place_eq_ok_iff.mpr hplace]
      rfl

lemma resetName_unknown (h : ¬m.Knows s.marks name) :
    resetName s name m = failed m (.undefinedParameter name) := by
  obtain ⟨hvariable, hparameter⟩ := not_or.mp h
  have hnone : s.marks.variableOf? name = none :=
    Marks.variableOf?_eq_none fun v hv => hvariable ⟨v, hv⟩
  have hplace : m.names.find? name = none :=
    Option.eq_none_iff_forall_ne_some.mpr fun place hp => hparameter ⟨place, hp⟩
  rw [resetName, hnone, Memory.place, hplace]
  rfl

/-- All names are cleared, or those in front of the first that is nobody's. -/
lemma each_resetName (s : Settings) (names : List Text) (m : Memory) :
    let o := each (resetName s) names m
    ((∀ name ∈ names, m.Knows s.marks name) ∧ o.fault = none ∧
        m.Cleared s.marks names o.memory) ∨
      ∃ before bad after, names = before ++ bad :: after ∧
        (∀ name ∈ before, m.Knows s.marks name) ∧ ¬m.Knows s.marks bad ∧
        o.fault = some (.undefinedParameter bad) ∧ m.Cleared s.marks before o.memory := by
  induction names generalizing m with
  | nil => exact .inl ⟨by simp, rfl, .nil s.marks m⟩
  | cons name names ih =>
    by_cases hknown : m.Knows s.marks name
    · obtain ⟨e, m', hreset, hcleared⟩ := resetName_known hknown
      have heach : each (resetName s) (name :: names) m =
          (noted [e] m').andThen (each (resetName s) names) := by rw [each, hreset]
      have hknows {n : Text} : m'.Knows s.marks n ↔ m.Knows s.marks n :=
        Memory.knows_congr hcleared.names
      rw [heach]
      have hcons {ns : List Text} (hns : ∀ n ∈ ns, m'.Knows s.marks n) :
          ∀ n ∈ name :: ns, m.Knows s.marks n :=
        List.forall_mem_cons.mpr ⟨hknown, fun n hn => hknows.mp (hns n hn)⟩
      obtain ⟨hall, hfault, hrest⟩ | ⟨before, bad, after, rfl, hbefore, hbad, hfault, hrest⟩ :=
        ih m'
      · exact .inl ⟨hcons hall, hfault, hcleared.append hrest⟩
      · have hbad' : ¬m.Knows s.marks bad := fun hb => hbad (hknows.mpr hb)
        exact .inr ⟨name :: before, bad, after, rfl, hcons hbefore, hbad', hfault,
          hcleared.append hrest⟩
    · have heach : each (resetName s) (name :: names) m = failed m (.undefinedParameter name) := by
        rw [each, resetName_unknown hknown]
        rfl
      rw [heach]
      exact .inr ⟨[], name, names, rfl, by simp, hknown, rfl, .nil s.marks m⟩

/-- Names in an operand that holds nothing to replace are reset as they are written. -/
lemma entryAt_reset (h : (s.resolver m .keep).hasWork (quotedNames s.marks names) = false) :
    entryAt s depth chain (.pair Directive.reset.name (quotedNames s.marks names)) m =
      each (resetName s) names m := by
  have hoperand :
      s.resolve m (quotedNames s.marks names) = .ok ⟨quotedNames s.marks names, false⟩ :=
    Resolver.resolve_of_not_hasWork h
  rw [entryAt, entry, pair_of_hasRole (hasRole_directive s m .reset), inRole, directive, hoperand,
    attempt, resetNames, elements_quotedNames]
  rfl

/-- Whether there is anything to replace in an operand does not depend on the order of the names. -/
lemma hasWork_quotedNames_congr {names' : List Text}
    (hsame : ∀ name, name ∈ names' ↔ name ∈ names) :
    (s.resolver m .keep).hasWork (quotedNames s.marks names') =
      (s.resolver m .keep).hasWork (quotedNames s.marks names) := by
  have hsigil : isNameChar (s.resolver m .keep).sigil = false :=
    s.marks.not_nameChar_of_mem (by simp [Marks.toList, Settings.resolver])
  have hblank : Text.isBlank (s.resolver m .keep).sigil = false :=
    s.marks.not_blank_of_mem (by simp [Marks.toList, Settings.resolver])
  have hspace : (s.resolver m .keep).sigil ≠ ' ' := by
    intro heq
    simp [heq, Text.isBlank_space] at hblank
  rw [Resolver.hasWork_quotedNames hsigil hspace, Resolver.hasWork_quotedNames hsigil hspace,
    Bool.eq_iff_iff]
  simp only [List.any_eq_true, hsame]

end Interpret

open Interpret Outcome in
/-- A reset clears exactly what it names, at any depth. If a name is neither a variable's nor a
parameter's, it fails at the first such name and has cleared those before it. Otherwise it does not
matter in what order the names are given, or how often. -/
theorem Registry.reset_clears (r : Registry) (depth : Nat) (chain : List Text) (names : List Text)
    (hwork : (r.settings.resolver r.memory .keep).hasWork
      (quotedNames r.settings.marks names) = false) :
    let marks := r.settings.marks
    let outcome (names : List Text) := entryAt r.settings depth chain
      (.pair Directive.reset.name (quotedNames marks names)) r.memory
    (outcome names).dumped = [] ∧ (outcome names).requests = [] ∧
      ((∀ name ∈ names, r.memory.Knows marks name) →
        (outcome names).fault = none ∧ r.memory.Cleared marks names (outcome names).memory ∧
          ∀ names', (∀ name, name ∈ names' ↔ name ∈ names) →
            (outcome names').fault = none ∧ (outcome names').memory = (outcome names).memory) ∧
      ((∃ name ∈ names, ¬r.memory.Knows marks name) → ∃ before bad after,
        names = before ++ bad :: after ∧ (∀ name ∈ before, r.memory.Knows marks name) ∧
          ¬r.memory.Knows marks bad ∧ (outcome names).fault = some (.undefinedParameter bad) ∧
          r.memory.Cleared marks before (outcome names).memory) := by
  intro marks outcome
  have heach {names' : List Text} (hsame : ∀ name, name ∈ names' ↔ name ∈ names) :
      outcome names' = each (resetName r.settings) names' r.memory :=
    entryAt_reset ((hasWork_quotedNames_congr hsame).trans hwork)
  have hcleared {names' : List Text} (hsame : ∀ name, name ∈ names' ↔ name ∈ names)
      (hall : ∀ name ∈ names, r.memory.Knows marks name) :
      (outcome names').fault = none ∧ r.memory.Cleared marks names' (outcome names').memory := by
    rw [heach hsame]
    obtain ⟨-, h⟩ | ⟨before, bad, after, hsplit, -, hbad, -⟩ :=
      each_resetName r.settings names' r.memory
    · exact h
    · exact absurd (hall bad ((hsame bad).mp (by simp [hsplit]))) hbad
  have hsilent : (outcome names).dumped = [] ∧ (outcome names).requests = [] := by
    rw [heach fun _ => Iff.rfl]
    exact silent_of_clears (only_each (fun name _ m => resetName_clears r.settings name m) r.memory)
  refine ⟨hsilent.1, hsilent.2, fun hall => ?known, ?unknown⟩
  case known =>
    obtain ⟨hfault, hmemory⟩ := hcleared (fun _ => Iff.rfl) hall
    refine ⟨hfault, hmemory, fun names' hsame => ?_⟩
    obtain ⟨hfault', hmemory'⟩ := hcleared hsame hall
    exact ⟨hfault', hmemory.unique hsame hmemory'⟩
  case unknown =>
    rintro ⟨name, hname, hunknown⟩
    rw [heach fun _ => Iff.rfl]
    obtain ⟨hall, -⟩ | h := each_resetName r.settings names r.memory
    · exact absurd (hall name hname) hunknown
    · exact h

open Interpret in
/-- An alias that is named twice, the empty name, and variables of which one is not bound, in two
orders. -/
theorem Registry.reset_clears_alias :
    let cell (raw : Option Text) : Cell := ⟨raw, some ['d'], false⟩
    let names : Table Nat := .ofList [(['x'], 0), (['a'], 0), ([], 1), (['y'], 2)]
    let r : Registry := ⟨.standard, ⟨[cell ['1'], cell ['2'], cell ['3']], names,
      .ofList [(['v'], ['4']), (['w'], ['5'])], none⟩⟩
    let outcome (names : List Text) := entryAt r.settings 3 []
      (.pair Directive.reset.name (quotedNames .standard names)) r.memory
    let known : List Text := [['a'], ['$', 'u'], ['$', 'v'], [], ['a']]
    (r.settings.resolver r.memory .keep).hasWork (quotedNames .standard known) = false ∧
      (∀ name ∈ known, r.memory.Knows .standard name) ∧ (outcome known).fault = none ∧
      r.memory.Cleared .standard known (outcome known).memory ∧
      (outcome [[], ['$', 'v'], ['a'], ['$', 'u']]).memory =
        ⟨[cell none, cell none, cell ['3']], names, .ofList [(['w'], ['5'])], none⟩ := by
  intro cell names r outcome known
  have hwork :
      (r.settings.resolver r.memory .keep).hasWork (quotedNames .standard known) = false := by
    cbv
  have hall : ∀ name ∈ known, r.memory.Knows .standard name := by
    have hvariable (v : Text) : r.memory.Knows .standard ('$' :: v) := .inl ⟨v, rfl⟩
    simp only [known, List.forall_mem_cons]
    exact ⟨.inr ⟨0, rfl⟩, hvariable ['u'], hvariable ['v'], .inr ⟨1, rfl⟩, .inr ⟨0, rfl⟩, by simp⟩
  obtain ⟨hfault, hcleared, hsame⟩ := (reset_clears r 3 [] known hwork).2.2.1 hall
  have hreordered : ∀ name, name ∈ [[], ['$', 'v'], ['a'], ['$', 'u']] ↔ name ∈ known := by
    intro name
    simp only [known, List.mem_cons, List.not_mem_nil, or_false]
    grind
  have hcells : (outcome known).memory =
      ⟨[cell none, cell none, cell ['3']], names, .ofList [(['w'], ['5'])], none⟩ := by
    simp only [outcome]
    cbv
  exact ⟨hwork, hall, hfault, hcleared, (hsame _ hreordered).2.trans hcells⟩

open Interpret in
/-- A name that is nobody's, behind a variable and in front of a parameter. -/
example :
    let cell : Cell := ⟨some ['1'], none, false⟩
    let m : Memory := ⟨[cell], .ofList [(['x'], 0)], .ofList [(['v'], ['2'])], none⟩
    let o := entryAt .standard 3 []
      (.pair Directive.reset.name (quotedNames .standard [['$', 'v'], ['z'], ['x']])) m
    o.fault = some (.undefinedParameter ['z']) ∧
      o.memory = ⟨[cell], .ofList [(['x'], 0)], ∅, none⟩ := by
  cbv

end ParamLang
