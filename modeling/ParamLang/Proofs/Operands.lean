import ParamLang.Proofs.Concatenation
import ParamLang.Proofs.Plain
import ParamLang.Proofs.Table

/-! Operands as they are written: pairs of a name and a quoted value in any order, or a quoted value
alone. Whatever characters the values hold, each operand is read as the value given for it. -/
namespace ParamLang

/-- A fragment of pairs in order, each a name and a quoted value, with blanks after it. -/
inductive PairsText (m : Marks) : List (Text × Text) → Text → Prop
  | nil : PairsText m [] []
  | cons (name value : Text) {gap text : Text} {rest : List (Text × Text)} (hgap : gap.IsGap)
      (tail : PairsText m rest text) :
      PairsText m ((name, value) :: rest)
        (name ++ m.separator :: (m.quote value ++ (gap ++ text)))

def pairEntries (pairs : List (Text × Text)) : List Entry := pairs.map fun p => .pair p.1 p.2

variable {m : Marks} {pairs : List (Text × Text)} {text gap : Text}

lemma Layout.blanks {afterBare : Bool} {tokens : List Token} (h : Layout m afterBare tokens text)
    (hgap : gap.IsGap) : Layout m afterBare tokens (gap ++ text) := by
  have hmore {blanks : Text} (hblanks : blanks.IsGap) : Text.IsGap (gap ++ blanks) :=
    fun c hc => (List.mem_append.mp hc).elim (hgap c) (hblanks c)
  cases h with
  | blank hblanks => exact .blank (hmore hblanks)
  | separator hblanks tail =>
    rw [← List.append_assoc]
    exact .separator (hmore hblanks) tail
  | bracketed t hblanks tail =>
    rw [← List.append_assoc]
    exact .bracketed t (hmore hblanks) tail
  | bare t ht hblanks apart tail =>
    rw [← List.append_assoc]
    exact .bare t ht (hmore hblanks) (fun hafter => by simp [apart hafter]) tail

lemma PairsText.layout (h : PairsText m pairs text)
    (hnames : ∀ p ∈ pairs, p.1.IsPlain ∧ p.1 ≠ []) :
    Layout m false ((pairEntries pairs).flatMap Entry.tokens) text := by
  induction h with
  | nil => exact .blank Text.isGap_nil
  | @cons name value gap text rest hgap tail ih =>
    obtain ⟨hplain, hne⟩ := hnames (name, value) (by simp)
    have hrest := (ih fun p hp => hnames p (List.mem_cons_of_mem _ hp)).blanks hgap
    have hpair : Layout m false
        (.literal name :: .separator :: .literal value :: (pairEntries rest).flatMap Entry.tokens)
        (m.bareForm name ++ m.separator :: (m.quote value ++ (gap ++ text))) :=
      .bare name hne Text.isGap_nil (by simp)
        (.separator Text.isGap_nil (.bracketed value Text.isGap_nil hrest))
    rwa [m.bareForm_of_plain hplain] at hpair

/-- Pairs are scanned as they were written. -/
lemma PairsText.scan (h : PairsText m pairs text) (hnames : ∀ p ∈ pairs, p.1.IsPlain ∧ p.1 ≠ []) :
    scan m text = .ok (pairEntries pairs) :=
  scan_eq_ok_iff.mpr ((h.layout hnames).run_gives 0)

/-- The directive with an operand, as a fragment of its own. -/
def Directive.write (m : Marks) (d : Directive) (operand : Text) : Text :=
  d.name ++ m.separator :: m.quote operand

lemma Directive.scan_write (m : Marks) (d : Directive) (operand : Text) :
    scan m (d.write m operand) = .ok [.pair d.name operand] := by
  have hpairs : PairsText m [(d.name, operand)] (d.write m operand) := by
    simpa [write] using PairsText.cons (m := m) d.name operand Text.isGap_nil .nil
  refine hpairs.scan fun p hp => ?_
  obtain rfl := List.mem_singleton.mp hp
  exact ⟨d.isPlain_name, d.name_ne_nil⟩

namespace EntryRun

/-- Pairs are assembled under either policy. -/
lemma assemble_pairs (policy : IsolatedPolicy) (position : Nat) {tokens : List (Token × Nat)}
    (h : tokens.map Prod.fst = (pairEntries pairs).flatMap Entry.tokens) :
    assemble policy (.ok position) tokens = ⟨pairEntries pairs, none⟩ := by
  induction pairs generalizing tokens with
  | nil =>
    obtain rfl : tokens = [] := by simpa [pairEntries] using h
    rfl
  | cons p pairs ih =>
    obtain ⟨⟨t, i⟩, rest, rfl, ht, h⟩ := List.map_eq_cons_iff.mp h
    obtain ⟨⟨t', j⟩, rest, rfl, ht', h⟩ := List.map_eq_cons_iff.mp h
    obtain ⟨⟨t'', k⟩, rest, rfl, ht'', hrest⟩ := List.map_eq_cons_iff.mp h
    obtain rfl : t = .literal p.1 := ht
    obtain rfl : t' = .separator := ht'
    obtain rfl : t'' = .literal p.2 := ht''
    rw [assemble, ih hrest]
    rfl

lemma ofText_pairs (h : Layout m false ((pairEntries pairs).flatMap Entry.tokens) text)
    (policy : IsolatedPolicy) : ofText policy m text = ⟨pairEntries pairs, none⟩ := by
  obtain ⟨htokens, position, hending⟩ := h.run_gives 0
  have hassembled := assemble_pairs policy position htokens
  simpa only [ofText, ofTokens, TokenRun.ofText, Cursor.start, hending] using hassembled

lemma ofText_quote (m : Marks) (value : Text) :
    ofText .allowed m (m.quote value) = ⟨[.value value], none⟩ := by
  have hlayout : Layout m false ([Entry.value value].flatMap Entry.tokens) (m.quote value) := by
    have hend : Layout m false [] [] := .blank Text.isGap_nil
    simpa [Entry.tokens] using Layout.bracketed value Text.isGap_nil hend
  obtain ⟨htokens, position, hending⟩ := hlayout.run_gives 0
  have hassembled := assemble_tokens position _ htokens
  simpa only [ofText, ofTokens, TokenRun.ofText, Cursor.start, hending] using hassembled

end EntryRun

/-- Pairs are collected as they stand, if each has the empty name or an accepted one. -/
lemma collectOperands_eq_ok_iff {accepted : List Text} {operands table : Table Text} :
    collectOperands accepted (pairEntries pairs) operands = .ok table ↔
      (∀ p ∈ pairs, p.1 ∈ [] :: accepted) ∧
        pairs.foldl (fun t p => t.put p.1 p.2) operands = table := by
  induction pairs generalizing operands with
  | nil => simp [pairEntries, collectOperands]
  | cons p pairs ih =>
    rw [pairEntries, List.map_cons, collectOperands, List.forall_mem_cons, List.mem_cons]
    by_cases hp : p.1 = [] ∨ p.1 ∈ accepted
    · rw [if_pos hp, and_iff_right hp, List.foldl_cons]
      exact ih
    · simp [hp]

lemma collectOperands_pairs {accepted : List Text} (h : ∀ p ∈ pairs, p.1 ∈ [] :: accepted)
    (operands : Table Text) : collectOperands accepted (pairEntries pairs) operands =
      .ok (pairs.foldl (fun t p => t.put p.1 p.2) operands) :=
  collectOperands_eq_ok_iff.mpr ⟨h, rfl⟩

/-- Operands that are written as pairs, under accepted names alone, are these pairs. -/
lemma readOperands_pairs {accepted : List Text} (policy : IsolatedPolicy)
    (htext : PairsText m pairs text) (haccepted : ∀ p ∈ pairs, p.1 ∈ accepted)
    (hplain : ∀ name ∈ accepted, name.IsPlain ∧ name ≠ []) :
    readOperands policy accepted m text = .ok (.ofList pairs) := by
  have hlayout := htext.layout fun p hp => hplain p.1 (haccepted p hp)
  have hnames : ∀ p ∈ pairs, p.1 ∈ [] :: accepted := fun p hp =>
    List.mem_cons_of_mem [] (haccepted p hp)
  rw [readOperands, EntryRun.ofText_pairs hlayout policy, collectOperands_pairs hnames, ok_bind]
  rfl

namespace ConditionOperands

/-- The operands of a condition as pairs. -/
def toPairs (operands : ConditionOperands) : List (Text × Text) :=
  (testName, operands.test) :: (thenName, operands.thenBranch) ::
    (operands.elseBranch.map fun branch => (elseName, branch)).toList

variable {operands : ConditionOperands}

lemma names_plain : ∀ name ∈ [testName, thenName, elseName], name.IsPlain ∧ name ≠ [] := by
  have hall : [testName, thenName, elseName].all (fun name => name.all isNameChar && name != []) =
    true := by decide
  intro name hname
  obtain ⟨hplain, hne⟩ := Bool.and_eq_true_iff.mp (List.all_eq_true.mp hall name hname)
  exact ⟨List.all_eq_true.mp hplain, bne_iff_ne.mp hne⟩

lemma toPairs_names_sublist (operands : ConditionOperands) :
    (operands.toPairs.map Prod.fst).Sublist [testName, thenName, elseName] := by
  cases h : operands.elseBranch <;> simp [toPairs, h]

lemma toPairs_names_nodup (operands : ConditionOperands) :
    (operands.toPairs.map Prod.fst).Nodup :=
  operands.toPairs_names_sublist.nodup (by decide)

/-- The operands of a condition are read back from their pairs in any order. -/
lemma read_pairs (hperm : pairs.Perm operands.toPairs) (htext : PairsText m pairs text) :
    read m text = .ok operands := by
  have hnodup : (pairs.map Prod.fst).Nodup :=
    (hperm.map Prod.fst).nodup_iff.mpr operands.toPairs_names_nodup
  have hfind {name value : Text} :
      (Table.ofList pairs).find? name = some value ↔ (name, value) ∈ operands.toPairs := by
    rw [Table.find?_ofList_eq_some_iff hnodup, hperm.mem_iff]
  have haccepted : ∀ p ∈ pairs, p.1 ∈ [testName, thenName, elseName] := fun p hp =>
    operands.toPairs_names_sublist.subset (List.mem_map_of_mem (hperm.mem_iff.mp hp))
  have htest : (Table.ofList pairs).find? testName = some operands.test :=
    hfind.mpr (by simp [toPairs])
  have hthen : (Table.ofList pairs).find? thenName = some operands.thenBranch :=
    hfind.mpr (by simp [toPairs])
  have helse : (Table.ofList pairs).find? elseName = operands.elseBranch := by
    refine Option.ext fun branch => ?_
    rw [hfind]
    have htestName : elseName ≠ testName := by decide
    have hthenName : elseName ≠ thenName := by decide
    simp [toPairs, htestName, hthenName]
  rw [read, readOperands_pairs .forbidden htext haccepted names_plain, ok_bind]
  simp only [requireOperand, htest, hthen, helse, ok_bind]

end ConditionOperands

lemma InclusionOperands.read_quote (m : Marks) (file : Text) :
    read m (m.quote file) = .ok ⟨file, none, none, none⟩ := by
  rw [read, readOperands, EntryRun.ofText_quote]
  rfl

end ParamLang
