import ParamLang.Number.Digits

/-! Whole numbers of limited size. -/
namespace ParamLang.Number

/-- The number of values of a word of 64 bits on either side of zero. -/
def integerSpan : Int := 0x8000000000000000

/-- Reads a signed number of 64 bits. -/
def readInteger? (t : Text) : Option Int :=
  (readSigned? t).bind fun n => if -integerSpan ≤ n ∧ n < integerSpan then some n else none

/-- Reads an unsigned number of 8 bits. A plus may stand in front, a minus may not. -/
def readByte? (t : Text) : Option Nat :=
  let body := match t with
    | '+' :: u => u
    | u => u
  (readDigits? body).bind fun n => if n < 256 then some n else none

end ParamLang.Number
