import ParamLang.Token
import ParamLang.Reference
import ParamLang.Parameter.Reading
import ParamLang.Parameter.Size

/-! Typed reading of parameters. Everything but the raw access refuses a text in which a reference
to a variable is left. -/
namespace ParamLang

/-- A parameter under one of its names. -/
structure View where
  name : Text
  cell : Cell
  marks : Marks

namespace View

def isSet (v : View) : Bool := v.cell.raw.isSome

/-- The assigned text, or else the default, with references unchecked. -/
def raw (v : View) : Except Fault Text :=
  match v.cell.shown? with
  | some text => .ok text
  | none => .error (.missingValue v.name)

/-- The elements of the raw text. -/
def rawElements (v : View) : Except Fault (List Text) := do elements v.marks (← v.raw)

def hasReferences (v : View) (t : Text) : Bool := ParamLang.hasReferences v.marks.sigil t

/-- The default that stands in for a text that is one reference and nothing else. A default that
holds references itself does not stand in. -/
def substitute? (v : View) (text : Text) : Option Text :=
  match Segment.ofText v.marks.sigil text, v.cell.default with
  | [.reference _ _], some default => if v.hasReferences default then none else some default
  | _, _ => none

def text (v : View) : Except Fault Text := do
  let text ← v.raw
  if v.hasReferences text then
    match v.substitute? text with
    | some default => .ok default
    | none => .error (.unresolvedVariable v.name text)
  else .ok text

/-- All elements, checked in number and then for references. -/
def texts (v : View) (range : SizeRange) : Except Fault (List Text) := do
  let ts ← v.rawElements
  range.check v.name ts.length
  match ts.find? v.hasReferences with
  | some bad => .error (.unresolvedVariable v.name bad)
  | none => .ok ts

variable {α : Type}

def convert (v : View) (reading : Reading α) (index : Option Nat) (text : Text) :
    Except Fault α :=
  match reading.read text with
  | some a => .ok a
  | none => .error (.conversionFailed v.name index text reading.target)

/-- Converts elements in order, the first of which has the given index. -/
def convertFrom (v : View) (reading : Reading α) : Nat → List Text → Except Fault (List α)
  | _, [] => .ok []
  | index, t :: ts => do
    let a ← v.convert reading (some index) t
    .ok (a :: (← v.convertFrom reading (index + 1) ts))

/-- The value as a type. -/
def get (v : View) (reading : Reading α) : Except Fault α := do
  v.convert reading none (← v.text)

/-- The elements as values of a type. -/
def getAll (v : View) (reading : Reading α) (range : SizeRange) : Except Fault (List α) := do
  v.convertFrom reading 0 (← v.texts range)

end View

end ParamLang
