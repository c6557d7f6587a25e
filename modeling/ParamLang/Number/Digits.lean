import ParamLang.Text.Basic

/-! Decimal digits and the whole numbers that they write. -/
namespace ParamLang.Number

def isDigit (c : Char) : Bool := c.isDigit

def digitValue (c : Char) : Nat := c.toNat - '0'.toNat

/-- The value of digits, the most significant one first. -/
def ofDigits (ds : Text) : Nat := ds.foldl (fun n d => 10 * n + digitValue d) 0

/-- Reads a text of one or more digits and nothing else. -/
def readDigits? (t : Text) : Option Nat :=
  if t ≠ [] ∧ t.all isDigit then some (ofDigits t) else none

/-- A sign in front, and the text after it. A text without a sign is positive. -/
def splitSign : Text → Bool × Text
  | '-' :: t => (true, t)
  | '+' :: t => (false, t)
  | t => (false, t)

/-- Reads digits after an optional sign. -/
def readSigned? (t : Text) : Option Int :=
  let (negative, body) := splitSign t
  (readDigits? body).map fun n => if negative then -(n : Int) else n

end ParamLang.Number
