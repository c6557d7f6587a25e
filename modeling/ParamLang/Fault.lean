import ParamLang.Text.Basic

/-! What can go wrong, by cause. The wording of each cause is in `Fault.message` alone. -/
namespace ParamLang

/-- What is wrong with a fragment as it is written. -/
inductive Misreading
  | unmatchedCloser
  | unterminatedBracket
  | danglingEscape
  | misplacedSeparator
  | danglingSeparator
  | isolatedValue
  deriving DecidableEq, Repr

/-- Why a file gives no text. -/
inductive FileFault
  | notFound
  | isFolder
  | notFolder
  | invalidText
  deriving DecidableEq, Repr

mutual

inductive Fault
  | misread (kind : Misreading) (position : Nat) (excerpt : Text)
  | undefinedParameter (name : Text)
  | duplicateDefinition (name : Text)
  | reservedName (name : Text)
  | emptyVariableName
  | unresolvedVariable (parameter text : Text)
  | variableCycle (name : Text)
  | missingValue (parameter : Text)
  | conversionFailed (parameter : Text) (index : Option Nat) (value : Text) (target : String)
  | sizeViolated (parameter : Text) (size : Nat) (least most : Option Nat)
  | inclusionFailed (file : Text) (cause : InclusionFault)
  | nestingTooDeep (limit : Nat)
  | unusableMark (character : Char)
  | conflictingMarks (first second : Char)
  deriving DecidableEq, Repr

inductive InclusionFault
  | unreadable (path : Text) (cause : FileFault)
  | cycle (path : Text)
  | unknownExtractor (name : Text)
  | missingSection (name : Text)
  | noIncluder
  | malformed (fault : Fault)
  deriving DecidableEq, Repr

end

def Misreading.message : Misreading → String
  | unmatchedCloser => "unmatched close-quote"
  | unterminatedBracket => "unterminated bracket"
  | danglingEscape => "escape at end of input"
  | misplacedSeparator => "separator without a name"
  | danglingSeparator => "separator without a value"
  | isolatedValue => "value without a name"

def quoted (t : Text) : String := "`" ++ String.ofList t ++ "`"

/-- The sizes between two inclusive bounds, in words. -/
def expectedSizes : Option Nat → Option Nat → String
  | some least, some most => "between " ++ toString least ++ " and " ++ toString most
  | some least, none => "at least " ++ toString least
  | none, some most => "at most " ++ toString most
  | none, none => "any number"

def elementLabel : Option Nat → String
  | some index => " element " ++ toString index
  | none => ""

def Fault.message : Fault → String
  | misread kind position excerpt =>
    "syntax error: " ++ kind.message ++ " at position " ++ toString position ++ " near "
      ++ quoted excerpt
  | undefinedParameter name => "undefined parameter " ++ quoted name
  | duplicateDefinition name => quoted name ++ " is already defined"
  | reservedName name => quoted name ++ " is a reserved directive name"
  | emptyVariableName => "variable name is empty"
  | unresolvedVariable parameter text =>
    "parameter " ++ quoted parameter ++ " has unresolved variable in " ++ quoted text
  | variableCycle name => "variable " ++ quoted name ++ " refers to itself"
  | missingValue parameter => "mandatory parameter " ++ quoted parameter ++ " has no value"
  | conversionFailed parameter index value target =>
    "parameter " ++ quoted parameter ++ elementLabel index ++ ": " ++ quoted value
      ++ " is not a valid " ++ target
  | sizeViolated parameter size least most =>
    "parameter " ++ quoted parameter ++ " has " ++ toString size ++ " values, expected "
      ++ expectedSizes least most
  | inclusionFailed file _ => "include of " ++ quoted file ++ " failed"
  | nestingTooDeep limit => "nesting exceeds " ++ toString limit ++ " levels"
  | unusableMark character => quoted [character] ++ " cannot be a meta character"
  | conflictingMarks first second =>
    "meta characters " ++ quoted [first] ++ " and " ++ quoted [second] ++ " conflict"

/-- A malformed file is reported in the words of the fault found in it. -/
def InclusionFault.message : InclusionFault → String
  | unreadable path _ => "cannot read " ++ quoted path
  | cycle path => quoted path ++ " includes itself"
  | unknownExtractor name => "unknown extractor " ++ quoted name
  | missingSection name => "section " ++ quoted name ++ " not found"
  | noIncluder => "no file includer configured"
  | malformed fault => fault.message

/-- A misreading and the position of the character it is blamed on. -/
structure Misread where
  kind : Misreading
  position : Nat
  deriving DecidableEq, Repr

/-- The fault shows what stands in the fragment from the blamed position on. -/
def Misread.fault (m : Misread) (fragment : Text) : Fault :=
  .misread m.kind m.position (fragment.excerpt m.position)

end ParamLang
