import ParamLang.Fault

/-! Bounds on the number of elements of a list, in words of 64 bits. -/
namespace ParamLang

inductive Bound
  | unbounded
  | included (n : UInt64)
  | excluded (n : UInt64)
  deriving DecidableEq, Repr

structure SizeRange where
  lower : Bound
  upper : Bound
  deriving DecidableEq, Repr

namespace SizeRange

def any : SizeRange := ⟨.unbounded, .unbounded⟩

def isAbove (size : Nat) : Bound → Bool
  | .unbounded => true
  | .included n => n.toNat ≤ size
  | .excluded n => n.toNat < size

def isBelow (size : Nat) : Bound → Bool
  | .unbounded => true
  | .included n => size ≤ n.toNat
  | .excluded n => size < n.toNat

def allows (range : SizeRange) (size : Nat) : Bool :=
  isAbove size range.lower && isBelow size range.upper

/-- The least size that a report gives. After the largest word comes zero. -/
def least? : Bound → Option UInt64
  | .unbounded => none
  | .included n => some n
  | .excluded n => some (n + 1)

/-- The greatest size that a report gives. Before zero comes zero. -/
def most? : Bound → Option UInt64
  | .unbounded => none
  | .included n => some n
  | .excluded n => some (if n = 0 then 0 else n - 1)

def violation (range : SizeRange) (parameter : Text) (size : Nat) : Fault :=
  .sizeViolated parameter size ((least? range.lower).map UInt64.toNat)
    ((most? range.upper).map UInt64.toNat)

def check (range : SizeRange) (parameter : Text) (size : Nat) : Except Fault Unit :=
  if range.allows size then .ok () else .error (range.violation parameter size)

end SizeRange

end ParamLang
