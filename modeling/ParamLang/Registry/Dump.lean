import ParamLang.Registry.Settings

/-! Dumps: the values of parameters and variables by name. A dump never fails. -/
namespace ParamLang.Dump

def undefinedText : Text := ['<', 'u', 'n', 'd', 'e', 'f', 'i', 'n', 'e', 'd', '>']

def missingText : Text := ['<', 'm', 'i', 's', 's', 'i', 'n', 'g', '>']

/-- What a dump shows for a name: the value of a variable, if the sigil stands in front, and else
the value or default of a parameter. -/
def shown (marks : Marks) (m : Memory) (name : Text) : Text :=
  match marks.variableOf? name with
  | some v => (m.bindings.find? v).getD undefinedText
  | none =>
    match m.cell? name with
    | some cell => cell.shown?.getD missingText
    | none => undefinedText

/-- All parameter names, aliases included, and then all variables, each kind in order. -/
def allNames (marks : Marks) (m : Memory) : List Text :=
  Text.sorted m.names.names ++ (Text.sorted m.bindings.names).map (marks.sigil :: ·)

/-- The names in an operand. One that does not resolve is taken as written, and one that does not
split into elements is taken as words. -/
def requested (s : Settings) (m : Memory) (operand : Text) : List Text :=
  let text := match s.resolve m operand with
    | .ok resolved => resolved.text
    | .error _ => operand
  match elements s.marks text with
  | .ok names => names
  | .error _ => Text.words text

/-- The lines of a dump, of all names if none is requested. -/
def lines (s : Settings) (m : Memory) (operand : Text) : List (Text × Text) :=
  let names := requested s m operand
  (if names = [] then allNames s.marks m else names).map fun name => (name, shown s.marks m name)

end ParamLang.Dump
