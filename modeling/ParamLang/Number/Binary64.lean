import ParamLang.Number.Digits

/-! Decimal numerals read as the nearest binary64 number, a tie going to the even significand. -/
namespace ParamLang.Number

/-- Half of the quotient's remainder decides; an exact half goes to the even neighbour. -/
def roundDiv (num den : Nat) : Nat :=
  let q := num / den
  let r := num % den
  if 2 * r < den then q
  else if den < 2 * r then q + 1
  else if q % 2 = 0 then q else q + 1

/-- A fraction divided by a power of two. -/
def scaleDown (num den : Nat) (exponent : Int) : Nat × Nat :=
  if exponent ≤ 0 then (num <<< (-exponent).toNat, den) else (num, den <<< exponent.toNat)

/-- The least exponent of a binary64 unit. -/
def leastExponent : Int := -1074

/-- The least significand of 53 binary digits. -/
def leastSignificand : Nat := 0x10000000000000

/-- The exponent of the unit in which a positive fraction has 53 binary digits before the point,
or the least exponent if that is larger. -/
def unitExponent (num den : Nat) : Int :=
  let guess : Int := (num.log2 : Int) - den.log2 - 52
  let (n, d) := scaleDown num den guess
  let exponent := if n < leastSignificand * d then guess - 1 else guess
  if exponent < leastExponent then leastExponent else exponent

def infinityBits : Nat := 0x7FF0000000000000

/-- The bits of the number nearest to a positive fraction. A significand that rounds up to the next
power of two carries into the exponent. -/
def nearestBits (num den : Nat) : Nat :=
  let exponent := unitExponent num den
  let (n, d) := scaleDown num den exponent
  let bits := (exponent - leastExponent).toNat * leastSignificand + roundDiv n d
  if infinityBits < bits then infinityBits else bits

def powerOfTen (n : Nat) : Nat := Nat.pow 10 n

/-- The bits of the number nearest to `digits * 10 ^ exponent`, where `digits` has `count` digits.
Far out of range the answer is known from the magnitude alone. -/
def decimalBits (digits count : Nat) (exponent : Int) : Nat :=
  let magnitude := count + exponent
  if digits = 0 then 0
  else if 310 < magnitude then infinityBits
  else if magnitude < -330 then 0
  else if exponent < 0 then nearestBits digits (powerOfTen (-exponent).toNat)
  else nearestBits (digits * powerOfTen exponent.toNat) 1

/-- An exponent with its mark, or nothing. -/
def readExponent? : Text → Option Int
  | [] => some 0
  | c :: t => if c = 'e' ∨ c = 'E' then readSigned? t else none

/-- Digits with an optional point among or beside them, and an optional exponent. -/
def readDecimalBits? (t : Text) : Option Nat :=
  let whole := t.takeWhile isDigit
  let afterWhole := t.dropWhile isDigit
  let (fraction, rest) :=
    match afterWhole with
    | '.' :: u => (u.takeWhile isDigit, u.dropWhile isDigit)
    | u => ([], u)
  let digits := (whole ++ fraction).dropWhile (· == '0')
  if whole = [] ∧ fraction = [] then none
  else (readExponent? rest).map fun exponent =>
    decimalBits (ofDigits digits) digits.length (exponent - fraction.length)

def infinityWords : List Text :=
  [['i', 'n', 'f'], ['i', 'n', 'f', 'i', 'n', 'i', 't', 'y']]

def nanWord : Text := ['n', 'a', 'n']

def nanBits : Nat := 0x7FF8000000000000

def readUnsignedBits? (t : Text) : Option Nat :=
  if infinityWords.any fun word => Text.isWord word t then some infinityBits
  else if Text.isWord nanWord t then some nanBits
  else readDecimalBits? t

def signBit : Nat := 0x8000000000000000

/-- Reads a number after an optional sign. -/
def readFloat? (t : Text) : Option Float :=
  let (negative, body) := splitSign t
  (readUnsignedBits? body).map fun bits =>
    Float.ofBits (UInt64.ofNat (if negative then signBit + bits else bits))

end ParamLang.Number
