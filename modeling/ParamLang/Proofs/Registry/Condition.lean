import ParamLang.Proofs.Operands
import ParamLang.Proofs.Registry.Depth

/-! Conditions. One branch is taken and the other left alone, and the one that is taken comes out of
its brackets as it was given. -/
namespace ParamLang

namespace ConditionOperands

variable {operands : ConditionOperands} {test : Text}

lemma branch?_of_visible (h : ∃ c ∈ test, Text.isBlank c = false) :
    operands.branch? test = some operands.thenBranch := by
  have hholds : Interpret.holds test = true := by simpa [Interpret.holds] using h
  rw [branch?, if_pos hholds]

lemma branch?_of_isGap (h : test.IsGap) : operands.branch? test = operands.elseBranch := by
  have hholds : Interpret.holds test = false := by
    simpa [Interpret.holds, Text.IsGap] using h
  simp [branch?, hholds]

end ConditionOperands

namespace Interpret

open Outcome

variable {s : Settings} {depth : Nat} {chain : List Text} {m : Memory} {operand : Text}

/-- Up to the limit, a fragment that is written for a directive is the directive. -/
lemma fragmentAt_write (h : depth ≤ s.maxDepth) (d : Directive) :
    fragmentAt s depth chain (d.write s.marks operand) m =
      directive s (deeperAt s (s.maxDepth - depth)) chain operand m d := by
  have hsingle (e : Entry) : each (entryAt s depth chain) [e] m = entryAt s depth chain e m :=
    andThen_unchanged _
  rw [fragmentAt_of_scan h (d.scan_write s.marks operand), hsingle, entryAt, entry,
    pair_of_hasRole (hasRole_directive s m d)]
  rfl

lemma fragmentAt_condition (h : depth ≤ s.maxDepth) {operands : ConditionOperands}
    (hread : ConditionOperands.read s.marks operand = .ok operands) :
    fragmentAt s depth chain (Directive.condition.write s.marks operand) m =
      attempt m ((s.resolver m .empty).resolve operands.test) fun test =>
        match operands.branch? test.text with
        | some branch => fragmentAt s (depth + 1) chain branch m
        | none => unchanged m := by
  simp only [fragmentAt_write h, directive, condition_eq, hread, fragmentAt_succ]
  rfl

end Interpret

namespace Registry

open Interpret

/-- A condition, written with its operands in any order, does one level deeper what the branch does
that its test decides on, as that branch was given. It does nothing if the test cannot be resolved,
or if it comes to blanks and there is no other branch. Beyond the limit no text is read, and so no
condition. -/
theorem condition_branches (r : Registry) (depth : Nat) (chain : List Text)
    {operands : ConditionOperands} {pairs : List (Text × Text)} {operand : Text}
    (hpairs : pairs.Perm operands.toPairs) (hoperand : PairsText r.settings.marks pairs operand) :
    let outcome := fragmentAt r.settings depth chain
      (Directive.condition.write r.settings.marks operand) r.memory
    let tested := (r.settings.resolver r.memory .empty).resolve operands.test
    (r.settings.maxDepth < depth →
      outcome = .failed r.memory (.nestingTooDeep r.settings.maxDepth)) ∧
    (depth ≤ r.settings.maxDepth →
      (∀ fault, tested = .error fault → outcome = .failed r.memory fault) ∧
      ∀ test, tested = .ok test →
        ((∃ c ∈ test.text, Text.isBlank c = false) → outcome =
          fragmentAt r.settings (depth + 1) chain operands.thenBranch r.memory) ∧
        ((∀ c ∈ test.text, Text.isBlank c = true) → outcome =
          match operands.elseBranch with
          | some branch => fragmentAt r.settings (depth + 1) chain branch r.memory
          | none => .unchanged r.memory)) := by
  intro outcome tested
  refine ⟨fun hdeep => fragmentAt_of_limit_lt hdeep, fun hdepth => ?_⟩
  have houtcome : outcome = .attempt r.memory tested _ :=
    fragmentAt_condition hdepth (operands.read_pairs hpairs hoperand)
  refine ⟨fun fault htested => ?_, fun test htested => ⟨fun hvisible => ?_, fun hblank => ?_⟩⟩
  · rw [houtcome, htested, Outcome.attempt]
  · rw [houtcome, htested, Outcome.attempt, operands.branch?_of_visible hvisible]
  · rw [houtcome, htested, Outcome.attempt, operands.branch?_of_isGap hblank]

/-- The branch that is not taken cannot even be scanned, and the one that is taken keeps its
brackets and its reference. -/
theorem condition_branches_else :
    let branch : Text := ['a', '=', '[', '1', ' ', '$', '$', 'v', ']']
    let operands : ConditionOperands := ⟨['$', '$', 'u'], ['['], some branch⟩
    let pairs : List (Text × Text) := [(ConditionOperands.elseName, branch),
      (ConditionOperands.testName, ['$', '$', 'u']), (ConditionOperands.thenName, ['['])]
    let operand : Text := ['e', 'l', 's', 'e', '=', '[', 'a', '=', '\\', '[', '1', ' ', '$', '$',
      'v', '\\', ']', ']', ' ', 'i', 'f', '=', '[', '$', '$', 'u', ']', ' ', 't', 'h', 'e', 'n',
      '=', '[', '\\', '[', ']']
    let r : Registry := ⟨.standard,
      ⟨[.mandatory], .ofList [(['a'], 0)], .ofList [(['v'], ['2'])], some []⟩⟩
    pairs.Perm operands.toPairs ∧ PairsText .standard pairs operand ∧
      (fragmentAt r.settings 2 [] branch r.memory).memory.history =
        some [.pair ['a'] ['1', ' ', '2']] ∧
      fragmentAt r.settings 1 [] (Directive.condition.write .standard operand) r.memory =
        fragmentAt r.settings 2 [] branch r.memory := by
  intro branch operands pairs operand r
  have hpairs : pairs.Perm operands.toPairs := by decide
  have hspace : Text.IsGap [' '] := by simp [Text.IsGap, Text.isBlank_space]
  have hoperand : PairsText .standard pairs operand :=
    .cons _ _ hspace (.cons _ _ hspace (.cons _ _ Text.isGap_nil .nil))
  have htested : (r.settings.resolver r.memory .empty).resolve operands.test = .ok ⟨[], true⟩ := by
    cbv
  have hhistory : (fragmentAt r.settings 2 [] branch r.memory).memory.history =
    some [.pair ['a'] ['1', ' ', '2']] := by cbv
  have hblank : ∀ c ∈ ([] : Text), Text.isBlank c = true := by simp
  obtain ⟨-, hwithin⟩ := r.condition_branches 1 [] hpairs hoperand
  obtain ⟨-, hdecided⟩ := hwithin (by decide)
  exact ⟨hpairs, hoperand, hhistory, (hdecided _ htested).2 hblank⟩

end Registry

end ParamLang
