import ActionTree.Double.Basic

/-!
# Decimals and their nearest double

* `Decimal` - a whole coefficient times a power of ten;
* `Decimal.numerator`, `Decimal.denominator` - its value in double units as a quotient;
* `Decimal.toDouble` - the nearest double, so reading a decimal rounds once.
-/

namespace ActionTree

/-- The non-negative decimal `coefficient * 10 ^ exponent`. -/
structure Decimal where
  coefficient : Nat
  exponent : Int
  deriving DecidableEq, Inhabited

namespace Decimal

/-- The numerator of the value in units. -/
def numerator (d : Decimal) : Nat := d.coefficient * Nat.pow 10 d.exponent.toNat * Double.one

/-- The denominator of the value in units. -/
def denominator (d : Decimal) : Nat := Nat.pow 10 (-d.exponent).toNat

/-- The rank of the nearest double, as if ranks went on without end. -/
def nearestRank (d : Decimal) : Nat := Double.nearestRank d.numerator d.denominator

/-- An upper bound for the number of digits of a coefficient. -/
def digitBound (n : Nat) : Nat := n.log2 / 3 + 2

/-- The double nearest to a decimal.  Far outside the range of doubles the answer is known from the
exponent, so no huge power of ten is formed. -/
def toDouble (negative : Bool) (d : Decimal) : Double :=
  if d.coefficient = 0 then .zero negative
  else if 400 < d.exponent then .infinite negative
  else if d.exponent + digitBound d.coefficient < -400 then .zero negative
  else .round negative d.numerator d.denominator

end Decimal

end ActionTree
