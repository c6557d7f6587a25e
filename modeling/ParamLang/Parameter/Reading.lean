import ParamLang.Number.Integer
import ParamLang.Number.Binary64
import ParamLang.Parameter.Cell

/-! Types that the text of a parameter can be read as. -/
namespace ParamLang

/-- How a type is read from a whole text, and what a failure calls the type. -/
structure Reading (α : Type) where
  target : String
  read : Text → Option α

namespace Reading

def integer : Reading Int := ⟨"integer", Number.readInteger?⟩

def number : Reading Float := ⟨"number", Number.readFloat?⟩

/-- The words `true` and `false` in any ASCII case. -/
def readBoolean? (t : Text) : Option Bool :=
  if Text.isWord Cell.onText t then some true
  else if Text.isWord Cell.offText t then some false
  else none

def boolean : Reading Bool := ⟨"boolean", readBoolean?⟩

/-- A type with finitely many values, each written as one text. -/
def choice {α : Type} (target : String) (choices : List (Text × α)) : Reading α :=
  ⟨target, fun t => choices.lookup t⟩

/-- A single character of any kind. -/
def readCharacter? : Text → Option Char
  | [c] => some c
  | _ => none

end Reading

end ParamLang
