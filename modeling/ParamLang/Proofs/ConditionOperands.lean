import ParamLang.Proofs.Grouping

/-! The operands of a condition as they are checked. A fragment gives them just when it holds pairs
alone, none under a foreign name, with a test and a branch among them; of several pairs under one
name the last one counts. The empty name, under which other directives keep a value without a name,
is let through here too. -/
namespace ParamLang

variable {m : Marks} {fragment name value : Text} {pairs : List (Text × Text)}
  {accepted : List Text} {table : Table Text}

/-- Where values without a name are forbidden, operands are read from pairs alone. -/
lemma readOperands_eq_ok_iff : readOperands .forbidden accepted m fragment = .ok table ↔
    ∃ pairs, EntryRun.ofText .forbidden m fragment = ⟨pairEntries pairs, none⟩ ∧
      (∀ p ∈ pairs, p.1 ∈ [] :: accepted) ∧ Table.ofList pairs = table := by
  constructor
  · intro h
    obtain ⟨collected, hcollected, hended⟩ := bind_eq_ok_iff.mp h
    have hpair (e : Entry) (he : e ∈ (EntryRun.ofText .forbidden m fragment).entries) :
        ∃ name v, e = .pair name v := EntryRun.pair_of_mem_forbidden he
    obtain ⟨pairs, hpairs⟩ := EntryRun.exists_pairEntries hpair
    cases hmisread : (EntryRun.ofText .forbidden m fragment).misread with
    | some misread => simp [hmisread] at hended
    | none =>
      obtain rfl : collected = table := by simpa [hmisread] using hended
      rw [hpairs] at hcollected
      refine ⟨pairs, ?_, collectOperands_eq_ok_iff.mp hcollected⟩
      rw [← hpairs, ← hmisread]
  · rintro ⟨pairs, hpairs, haccepted, rfl⟩
    simp only [readOperands, hpairs, collectOperands_pairs haccepted, ok_bind]
    rfl

lemma requireOperand_eq_ok_iff {label : Text} :
    requireOperand table name label = .ok value ↔ table.find? name = some value := by
  unfold requireOperand
  cases table.find? name <;> simp

namespace ConditionOperands

def names : List Text := [testName, thenName, elseName]

/-- Each operand is the value of the last pair under its name. -/
structure GivenBy (operands : ConditionOperands) (pairs : List (Text × Text)) : Prop where
  test : LastNamed pairs testName operands.test
  thenBranch : LastNamed pairs thenName operands.thenBranch
  elseBranch : ∀ value, operands.elseBranch = some value ↔ LastNamed pairs elseName value

/-- The fragment is read as these pairs, and has no other entries. -/
def Pairs (m : Marks) (fragment : Text) (pairs : List (Text × Text)) : Prop :=
  EntryRun.ofText .forbidden m fragment = ⟨pairEntries pairs, none⟩

/-- The operands are those of a fragment in which every entry has one of the given names. -/
def Checked (given : List Text) (m : Marks) (fragment : Text) (operands : ConditionOperands) :
    Prop :=
  ∃ pairs, Pairs m fragment pairs ∧ (∀ p ∈ pairs, p.1 ∈ given) ∧ operands.GivenBy pairs

variable {operands : ConditionOperands}

lemma Pairs.unique {pairs pairs' : List (Text × Text)} (h : Pairs m fragment pairs)
    (h' : Pairs m fragment pairs') : pairs = pairs' := by
  have hentries : pairEntries pairs = pairEntries pairs' := by
    simpa using h.symm.trans h'
  refine List.map_injective_iff.mpr (fun p q hpq => ?_) hentries
  simpa [Prod.ext_iff] using hpq

lemma givenBy_iff : operands.GivenBy pairs ↔
    (Table.ofList pairs).find? testName = some operands.test ∧
      (Table.ofList pairs).find? thenName = some operands.thenBranch ∧
      (Table.ofList pairs).find? elseName = operands.elseBranch := by
  simp only [← lastNamed_iff]
  constructor
  · rintro ⟨htest, hthen, helse⟩
    refine ⟨htest, hthen, Option.ext fun value => ?_⟩
    rw [helse, lastNamed_iff]
  · rintro ⟨htest, hthen, helse⟩
    exact ⟨htest, hthen, fun value => by rw [lastNamed_iff, helse]⟩

lemma read_eq_ok_iff : read m fragment = .ok operands ↔
    Checked ([] :: names) m fragment operands := by
  simp only [read, bind_eq_ok_iff, readOperands_eq_ok_iff, requireOperand_eq_ok_iff]
  constructor
  · rintro ⟨table, ⟨pairs, hpairs, haccepted, rfl⟩, test, htest, thenBranch, hthen, hoperands⟩
    cases hoperands
    exact ⟨pairs, hpairs, haccepted, givenBy_iff.mpr ⟨htest, hthen, rfl⟩⟩
  · rintro ⟨pairs, hpairs, haccepted, hgiven⟩
    obtain ⟨htest, hthen, helse⟩ := givenBy_iff.mp hgiven
    exact ⟨_, ⟨pairs, hpairs, haccepted, rfl⟩, _, htest, _, hthen, by rw [helse]⟩

/-- There are operands to give where both names that must be given are. -/
lemma exists_givenBy_iff : (∃ operands : ConditionOperands, operands.GivenBy pairs) ↔
    testName ∈ pairs.map Prod.fst ∧ thenName ∈ pairs.map Prod.fst := by
  simp only [← exists_lastNamed_iff]
  constructor
  · rintro ⟨operands, hgiven⟩
    exact ⟨⟨_, hgiven.test⟩, ⟨_, hgiven.thenBranch⟩⟩
  · rintro ⟨⟨test, htest⟩, ⟨thenBranch, hthen⟩⟩
    exact ⟨⟨test, thenBranch, (Table.ofList pairs).find? elseName⟩, htest, hthen,
      fun value => lastNamed_iff.symm⟩

/-- The operands of a condition are read from any fragment of pairs alone that gives a test and the
branch for it, unless a pair has a foreign name, and the last pair under a name gives the operand.
The empty name is not taken for a foreign one: what is read has the names of operands alone just
where no pair with the empty name is read. -/
theorem read_checks (m : Marks) (fragment : Text) :
    (∀ operands, read m fragment = .ok operands ↔ Checked ([] :: names) m fragment operands) ∧
      ((∃ operands, read m fragment = .ok operands) ↔
        ∃ pairs, Pairs m fragment pairs ∧ (∀ p ∈ pairs, p.1 ∈ [] :: names) ∧
          testName ∈ pairs.map Prod.fst ∧ thenName ∈ pairs.map Prod.fst) ∧
      ((∀ operands, read m fragment = .ok operands ↔ Checked names m fragment operands) ↔
        ∀ operands pairs, read m fragment = .ok operands → Pairs m fragment pairs →
          [] ∉ pairs.map Prod.fst) := by
  refine ⟨fun operands => read_eq_ok_iff, ?_, ?_, ?_⟩
  · constructor
    · rintro ⟨operands, hread⟩
      obtain ⟨pairs, hpairs, hnames, hgiven⟩ := read_eq_ok_iff.mp hread
      exact ⟨pairs, hpairs, hnames, exists_givenBy_iff.mp ⟨operands, hgiven⟩⟩
    · rintro ⟨pairs, hpairs, hnames, hrequired⟩
      obtain ⟨operands, hgiven⟩ := exists_givenBy_iff.mpr hrequired
      exact ⟨operands, read_eq_ok_iff.mpr ⟨pairs, hpairs, hnames, hgiven⟩⟩
  · intro hchecked operands pairs hread hpairs hempty
    obtain ⟨pairs', hpairs', hnames, -⟩ := (hchecked operands).mp hread
    obtain rfl := hpairs.unique hpairs'
    obtain ⟨p, hp, hname⟩ := List.mem_map.mp hempty
    have hforeign : [] ∉ names := by decide
    exact hforeign (hname ▸ hnames p hp)
  · intro hfree operands
    constructor
    · intro hread
      obtain ⟨pairs, hpairs, hnames, hgiven⟩ := read_eq_ok_iff.mp hread
      refine ⟨pairs, hpairs, fun p hp => ?_, hgiven⟩
      have hne : p.1 ≠ [] := fun hempty =>
        hfree operands pairs hread hpairs (hempty ▸ List.mem_map_of_mem hp)
      exact (List.mem_cons.mp (hnames p hp)).resolve_left hne
    · rintro ⟨pairs, hpairs, hnames, hgiven⟩
      exact read_eq_ok_iff.mpr
        ⟨pairs, hpairs, fun p hp => List.mem_cons_of_mem [] (hnames p hp), hgiven⟩

/-- A pair under the empty name beside the operands of a condition, which is let through. -/
theorem read_empty_name :
    let fragment : Text := ['i', 'f', '=', '1', ' ', 't', 'h', 'e', 'n', '=', 'x', ' ', '[', ']',
      '=', 'y']
    let operands : ConditionOperands := ⟨['1'], ['x'], none⟩
    let pairs : List (Text × Text) := [(testName, ['1']), (thenName, ['x']), ([], ['y'])]
    Pairs .standard fragment pairs ∧ read .standard fragment = .ok operands ∧
      ¬Checked names .standard fragment operands := by
  intro fragment operands pairs
  have hpairs : Pairs .standard fragment pairs := by
    unfold Pairs
    cbv
  refine ⟨hpairs, by cbv, ?_⟩
  rintro ⟨pairs', hpairs', hnames, -⟩
  obtain rfl := hpairs.unique hpairs'
  have hforeign : [] ∉ names := by decide
  exact hforeign (hnames ([], ['y']) (by simp [pairs]))

end ConditionOperands

end ParamLang
