import ParamLang.Marks

/-! The stored value of a parameter. All names of a parameter share one cell. -/
namespace ParamLang

structure Cell where
  /-- The text assigned since the last reset. -/
  raw : Option Text
  default : Option Text
  repeatable : Bool
  deriving DecidableEq, Repr

namespace Cell

def offText : Text := ['f', 'a', 'l', 's', 'e']

def onText : Text := ['t', 'r', 'u', 'e']

def mandatory : Cell := ⟨none, none, false⟩

def withDefault (default : Text) : Cell := ⟨none, some default, false⟩

/-- A list that every assignment adds an element to. It begins empty. -/
def accumulating : Cell := ⟨none, some [], true⟩

def flag : Cell := withDefault offText

/-- A flag is a parameter that is off by default. -/
def isFlag (c : Cell) : Bool := c.default == some offText

def appendElement (m : Marks) (value : Text) : Option Text → Text
  | none => m.quote value
  | some raw => raw ++ ' ' :: m.quote value

/-- An assignment replaces the value, or adds a quoted element to it. -/
def assign (m : Marks) (value : Text) (c : Cell) : Cell :=
  { c with raw := some (if c.repeatable then appendElement m value c.raw else value) }

def clear (c : Cell) : Cell := { c with raw := none }

/-- The assigned text, or else the default. -/
def shown? (c : Cell) : Option Text := c.raw.or c.default

end Cell

end ParamLang
