import ParamLang.Fault

/-! Extraction of a fragment from the lines of a file: all of them, or one section. A section
begins after a line of three dashes and its name, and ends before the next such line. -/
namespace ParamLang.Extract

def isComment (line : Text) : Bool := (Text.trimStart line).head? == some '#'

/-- The name on a line that begins a section. -/
def sectionName? (line : Text) : Option Text :=
  match Text.trim line with
  | '-' :: '-' :: '-' :: name => some (Text.trim name)
  | _ => none

/-- The lines after the first marker of a section. -/
def afterMarker? (wanted : Text) : List Text → Option (List Text)
  | [] => none
  | line :: rest =>
    if sectionName? line = some wanted then some rest else afterMarker? wanted rest

def sectionBody (lines : List Text) : List Text :=
  lines.takeWhile fun line => (sectionName? line).isNone

def allName : Text := ['a', 'l', 'l']

def sectionKeyword : Text := ['s', 'e', 'c', 't', 'i', 'o', 'n']

/-- Extracts from the lines that are left when comments are gone. -/
def extract (lines : List Text) (extractor parameters : Option Text) :
    Except InclusionFault Text :=
  let chosen := Text.trim (extractor.getD allName)
  if chosen = [] ∨ chosen = allName then .ok (Text.joinLines lines)
  else if chosen = sectionKeyword then
    let wanted := Text.trim (parameters.getD [])
    match afterMarker? wanted lines with
    | some rest => .ok (Text.joinLines (sectionBody rest))
    | none => .error (.missingSection wanted)
  else .error (.unknownExtractor chosen)

/-- The fragment that a file's content gives to a request. -/
def fragment (content : Text) (extractor parameters : Option Text) : Except InclusionFault Text :=
  extract ((Text.lines content).filter fun line => !isComment line) extractor parameters

end ParamLang.Extract
