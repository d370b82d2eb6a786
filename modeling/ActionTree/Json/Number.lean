import ActionTree.Decimal.Layout
import ActionTree.Double.Arithmetic
import ActionTree.Json.Basic

/-!
# Numbers in JSON

A number without point and exponent is an integer if it fits 64 bits.  Any other is a double: its
leading digits are taken as long as they fit 64 bits, and the result is scaled by a power of ten in
double arithmetic, so the last bit can differ from that of the nearest double.

* `Json.Number` - an integer or a double;
* `Json.Number.ofNumeral?` - the number that a numeral stands for, unless it is out of range;
* `Json.ofDouble` - the JSON number of a double, null for what JSON cannot write.
-/

namespace ActionTree.Json

/-- A number that was read. -/
inductive Number where
  | integer (value : Int)
  | float (value : Double)
  deriving DecidableEq

namespace Number

/-- Appends digits to a significand as long as it stays below `2 ^ 64`; the digits from the first
one that does not fit are left. -/
def takeDigits (significand : Nat) : List Char → Nat × List Char
  | [] => (significand, [])
  | c :: cs =>
    let next := significand * 10 + Numeral.digitValue c
    if next < UInt64.size then takeDigits next cs else (significand, c :: cs)

/-- A power of ten up to `10 ^ 308`. -/
def powerOfTen (n : Nat) : Double := Decimal.toDouble false ⟨1, n⟩

/-- A double times a power of ten that is not below `10 ^ -308`.  What overflows is out of range. -/
def scale? (x : Double) (e : Int) : Option Double :=
  if e < 0 then some (x.div (powerOfTen (-e).toNat))
  else if 308 < e then if x.isZero then some x else none
  else
    let y := x.mul (powerOfTen e.toNat)
    if y.isFinite then some y else none

/-- A double times any power of ten.  Small powers go in rounds of `10 ^ -308`; the third round
takes every 64 bit number to zero. -/
def scaleFully? (x : Double) (e : Int) : Nat → Option Double
  | 0 => some x
  | rounds + 1 =>
    if e < -308 then
      if x.isZero then some x else scaleFully? (x.div (powerOfTen 308)) (e + 308) rounds
    else scale? x e

/-- The magnitude of a double with a significand and an exponent. -/
def ofParts? (significand : Nat) (e : Int) : Option Double :=
  scaleFully? (.ofNat significand) e 4

/-- The magnitude that a numeral with a point, an exponent or too many digits stands for.  An
exponent past 31 bits gives zero, or is out of range. -/
def magnitude? (n : Numeral) : Option Double :=
  let (significand, dropped) := takeDigits 0 n.whole
  let digits := n.fraction.getD []
  let (significand, left) := takeDigits significand digits
  let start : Int := dropped.length - (digits.length - left.length : Nat)
  let e := Numeral.exponentValue n.exponent
  if 0x80000000 ≤ e.natAbs then
    if significand ≠ 0 ∧ 0 < e then none else some (.zero false)
  else ofParts? significand (start + e)

/-- A double with a sign. -/
def withSign (negative : Bool) (x : Double) : Double := if negative then x.neg else x

/-- The number that a numeral stands for. -/
def ofNumeral? (n : Numeral) : Option Number :=
  let (significand, dropped) := takeDigits 0 n.whole
  if n.fraction.isNone && n.exponent.isNone && dropped.isEmpty then
    if !n.negative then some (.integer significand)
    else if significand = 0 ∨ 0x8000000000000000 < significand then
      some (.float (.neg (.ofNat significand)))
    else some (.integer (-(significand : Int)))
  else (magnitude? n).map fun x => .float (withSign n.negative x)

/-- The number as a double. -/
def toDouble : Number → Double
  | .integer i => .ofInt i
  | .float x => x

end Number

/-- Doubles are written positionally from `1e-5` up to below `1e16`, and never as integers. -/
def numberStyle : NumberStyle := ⟨.even, -4, 16, some ['0']⟩

/-- The JSON number of a double.  NaN and infinities have none. -/
def ofDouble : Double → Json
  | .finite s r => .number (numberStyle.numeral s r)
  | _ => .null

end ActionTree.Json
