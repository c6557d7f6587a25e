import ParamLang.Table
import ParamLang.Entry

/-! Directives: the reserved names that act when they are interpreted, and their operands. -/
namespace ParamLang

inductive Directive
  | condition
  | inclusion
  | reset
  | dump
  deriving DecidableEq, Repr

namespace Directive

def name : Directive → Text
  | condition => ['c', 'o', 'n', 'd', 'i', 't', 'i', 'o', 'n']
  | inclusion => ['i', 'n', 'c', 'l', 'u', 'd', 'e']
  | reset => ['r', 'e', 's', 'e', 't']
  | dump => ['d', 'u', 'm', 'p']

def all : List Directive := [condition, inclusion, reset, dump]

/-- The directive with a name. -/
def find? (n : Text) : Option Directive := all.find? fun d => d.name == n

theorem find?_eq_some_iff (n : Text) (d : Directive) : find? n = some d ↔ n = d.name := by
  constructor
  · intro h
    have hd := List.find?_some h
    exact (eq_of_beq hd).symm
  · rintro rfl
    cases d <;> decide

end Directive

/-- Collects operands by name, the last mention of a name winning. A value without a name is kept
under the empty name; any other name must be an accepted one. -/
def collectOperands (accepted : List Text) : List Entry → Table Text → Except Fault (Table Text)
  | [], operands => .ok operands
  | .value value :: rest, operands => collectOperands accepted rest (operands.put [] value)
  | .pair name value :: rest, operands =>
    if name = [] ∨ name ∈ accepted then collectOperands accepted rest (operands.put name value)
    else .error (.undefinedParameter name)

/-- The operands in a fragment. An unknown name is reported before a misreading after it. -/
def readOperands (policy : IsolatedPolicy) (accepted : List Text) (m : Marks) (fragment : Text) :
    Except Fault (Table Text) := do
  let run := EntryRun.ofText policy m fragment
  let operands ← collectOperands accepted run.entries ∅
  match run.misread with
  | none => .ok operands
  | some misread => .error (misread.fault fragment)

def requireOperand (operands : Table Text) (name label : Text) : Except Fault Text :=
  match operands.find? name with
  | some value => .ok value
  | none => .error (.missingValue label)

/-- A test and the fragments to interpret if it holds and if it does not. -/
structure ConditionOperands where
  test : Text
  thenBranch : Text
  elseBranch : Option Text
  deriving DecidableEq, Repr

namespace ConditionOperands

def testName : Text := ['i', 'f']

def thenName : Text := ['t', 'h', 'e', 'n']

def elseName : Text := ['e', 'l', 's', 'e']

def label (operand : Text) : Text := Directive.condition.name ++ '.' :: operand

def read (m : Marks) (fragment : Text) : Except Fault ConditionOperands := do
  let operands ← readOperands .forbidden [testName, thenName, elseName] m fragment
  let test ← requireOperand operands testName (label testName)
  let thenBranch ← requireOperand operands thenName (label thenName)
  .ok ⟨test, thenBranch, operands.find? elseName⟩

end ConditionOperands

/-- What to include, and how. The file is the value without a name. -/
structure InclusionOperands where
  file : Text
  names : Option Text
  extractor : Option Text
  extractorParameters : Option Text
  deriving DecidableEq, Repr

namespace InclusionOperands

def namesName : Text := ['n', 'a', 'm', 'e', 's']

def extractorName : Text := ['e', 'x', 't', 'r', 'a', 'c', 't', 'o', 'r']

def extractorParametersName : Text :=
  extractorName ++ ['-', 'p', 'a', 'r', 'a', 'm', 'e', 't', 'e', 'r', 's']

def fileLabel : Text := Directive.inclusion.name ++ ['.', 'f', 'i', 'l', 'e']

def read (m : Marks) (fragment : Text) : Except Fault InclusionOperands := do
  let operands ←
    readOperands .allowed [namesName, extractorName, extractorParametersName] m fragment
  let file ← requireOperand operands [] fileLabel
  .ok {
    file
    names := operands.find? namesName
    extractor := operands.find? extractorName
    extractorParameters := operands.find? extractorParametersName }

end InclusionOperands

end ParamLang
