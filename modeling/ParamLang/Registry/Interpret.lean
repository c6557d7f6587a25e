import ParamLang.Registry.Outcome
import ParamLang.Registry.Dump

/-! Interpretation of entries. What an entry brings in with it, such as a branch of a condition, an
included file or a substituted value, is interpreted in its place and one level deeper. -/
namespace ParamLang.Interpret

/-- Runs entries one level deeper, given the sources being included. -/
abbrev Deeper := List Text → List Entry → Memory → Outcome

/-- Interprets a fragment one level deeper, or fails if no level is left. -/
def fragment (s : Settings) (deeper : Option Deeper) (chain : List Text) (text : Text)
    (m : Memory) : Outcome :=
  match deeper with
  | none => .failed m (.nestingTooDeep s.maxDepth)
  | some run => .attempt m (scan s.marks text) fun entries => run chain entries m

def store (s : Settings) (name value : Text) (m : Memory) : Outcome :=
  .attempt m (m.place name) fun place =>
    .noted [.stored place name value] (m.store s.marks place name value)

/-- Binds a variable. One that is bound already keeps its value, and the new value is not even
resolved. -/
def bindVariable (s : Settings) (name value : Text) (m : Memory) : Outcome :=
  if name = [] then .failed m .emptyVariableName
  else if m.bindings.contains name then .unchanged m
  else .attempt m (s.resolve m value) fun resolved =>
    .noted [.bound name resolved.text] (m.bind name resolved.text)

def isFlag (m : Memory) (name : Text) : Bool := (m.cell? name).any Cell.isFlag

/-- A value without a name is a fragment if something in it was substituted. Otherwise it is the
name of a flag to turn on, or else a value for the parameter with the empty name. -/
def isolated (s : Settings) (deeper : Option Deeper) (chain : List Text) (value : Text)
    (m : Memory) : Outcome :=
  .attempt m (s.resolve m value) fun resolved =>
    if resolved.changed then fragment s deeper chain resolved.text m
    else if isFlag m value then store s value Cell.onText m
    else if m.names.contains [] then store s [] value m
    else .failed m (.undefinedParameter value)

/-- A test holds if it resolves to more than blanks. -/
def holds (test : Text) : Bool := test.any fun c => !Text.isBlank c

/-- Interprets one branch as it is written. In the test, unbound variables count as empty. -/
def condition (s : Settings) (deeper : Option Deeper) (chain : List Text) (operand : Text)
    (m : Memory) : Outcome :=
  .attempt m (ConditionOperands.read s.marks operand) fun operands =>
    .attempt m ((s.resolver m .empty).resolve operands.test) fun test =>
      if holds test.text then fragment s deeper chain operands.thenBranch m
      else match operands.elseBranch with
        | some branch => fragment s deeper chain branch m
        | none => .unchanged m

/-- The remap that an operand writes, if it is given. -/
def remap (marks : Marks) : Option Text → Except Fault (Option Remap)
  | none => .ok none
  | some names => (Remap.read marks names).map some

/-- Interprets the entries of a source, which is part of the chain meanwhile. -/
def splice (run : Deeper) (chain : List Text) (included : Included) (m : Memory) : Outcome :=
  ((Outcome.noted [.entered included.source] m).andThen
    (run (chain ++ [included.source]) included.entries)).andThen (.noted [.left])

def inclusion (s : Settings) (deeper : Option Deeper) (chain : List Text) (operand : Text)
    (m : Memory) : Outcome :=
  match deeper with
  | none => .failed m (.nestingTooDeep s.maxDepth)
  | some run =>
    .attempt m (InclusionOperands.read s.marks operand) fun operands =>
      .attempt m (remap s.marks operands.names) fun names =>
        match s.includer with
        | none => .failed m (.inclusionFailed operands.file .noIncluder)
        | some includer =>
          let request : InclusionRequest := {
            file := operands.file
            names
            extractor := operands.extractor
            extractorParameters := operands.extractorParameters
            marks := s.marks
            chain }
          (Outcome.noted [.requested request] m).andThen fun m =>
            match includer request with
            | .error cause => .failed m (.inclusionFailed operands.file cause)
            | .ok included => splice run chain included m

/-- Unbinds a variable, bound or not, or clears a parameter. -/
def resetName (s : Settings) (name : Text) (m : Memory) : Outcome :=
  match s.marks.variableOf? name with
  | some v => .noted [.unbound v] (m.unbind v)
  | none => .attempt m (m.place name) fun place => .noted [.cleared place] (m.clear place)

def resetNames (s : Settings) (operand : Text) (m : Memory) : Outcome :=
  .attempt m (elements s.marks operand) fun names => .each (resetName s) names m

def dump (s : Settings) (operand : Text) (m : Memory) : Outcome :=
  .noted ((Dump.lines s m operand).map fun line => .dumped line.1 line.2) m

def directive (s : Settings) (deeper : Option Deeper) (chain : List Text) (operand : Text)
    (m : Memory) : Directive → Outcome
  | .condition => condition s deeper chain operand m
  | .inclusion => .attempt m (s.resolve m operand) fun o => inclusion s deeper chain o.text m
  | .reset => .attempt m (s.resolve m operand) fun o => resetNames s o.text m
  | .dump => dump s operand m

/-- A pair defines a variable if its resolved name begins with the sigil. Otherwise it is a
directive, or else an assignment. -/
def pair (s : Settings) (deeper : Option Deeper) (chain : List Text) (name value : Text)
    (m : Memory) : Outcome :=
  .attempt m (s.resolve m name) fun resolved =>
    match s.marks.variableOf? resolved.text with
    | some v => bindVariable s v value m
    | none =>
      match Directive.find? resolved.text with
      | some d => directive s deeper chain value m d
      | none => .attempt m (s.resolve m value) fun v => store s resolved.text v.text m

def entry (s : Settings) (deeper : Option Deeper) (chain : List Text) : Entry → Memory → Outcome
  | .value value => isolated s deeper chain value
  | .pair name value => pair s deeper chain name value

/-- Interprets entries with the given number of levels left below them. -/
def entries (s : Settings) : Nat → Deeper
  | 0, chain, es => .each (entry s none chain) es
  | levels + 1, chain, es => .each (entry s (some (entries s levels)) chain) es

end ParamLang.Interpret
