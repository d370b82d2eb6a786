/-!
# Double precision numbers

The numbers of the language are IEEE 754 doubles.  A finite double is a sign and a *rank*: its
place among the non-negative finite doubles in increasing order.  The rank is also the number that
the sign-free bits spell, so coding to 64 bits is immediate, and every finite double is a whole
number of *units* of `2 ^ -1074`, so comparison and rounding are natural number arithmetic.  All
NaNs are one value.

* `Double.rankUnits` - the magnitude of a rank, in units;
* `Double.nearestRank` - the rank nearest to a quotient of units, a half going to the even rank;
* `Double.round` - that rank with a sign, or an infinity past the last rank;
* `Double.toBits`, `Double.ofBits` - the 64 bit coding.
-/

namespace ActionTree

/-- The number of magnitudes between a power of two and the next, `2 ^ 52`. -/
def Double.binade : Nat := 0x10000000000000

/-- There are `2047 * 2 ^ 52` finite magnitudes. -/
def Double.rankLimit : Nat := 2047 * Double.binade

/-- A double precision number. -/
inductive Double where
  | nan
  | infinite (negative : Bool)
  | finite (negative : Bool) (rank : Fin Double.rankLimit)
  deriving DecidableEq, Inhabited

namespace Double

/-! ### Ranks and units -/

/-- The magnitude of rank `r` in units of `2 ^ -1074`: the first `2 ^ 53` ranks are evenly spaced,
after that the spacing doubles every `2 ^ 52` ranks. -/
def rankUnits (r : Nat) : Nat :=
  if r < binade then r else (binade + r % binade) <<< (r / binade - 1)

/-- The number of units in one. -/
def one : Nat := 1 <<< 1074

/-- The integer nearest to `num / den`, a half going to the even neighbour. -/
def divHalfEven (num den : Nat) : Nat :=
  if 2 * (num % den) < den then num / den
  else if den < 2 * (num % den) then num / den + 1
  else num / den + num / den % 2

/-- The rank nearest to `num / den` units, as if ranks went on without end.  Ranks at the quotient's
size are `2 ^ e` units apart, and the rank of `m` such steps is `m` past `e * 2 ^ 52`. -/
def nearestRank (num den : Nat) : Nat :=
  let e := Nat.log2 (num / den) - 52
  e * binade + divHalfEven num (den <<< e)

/-- The double nearest to `num / den` units with the given sign; what rounds past the last rank is
infinite. -/
def round (negative : Bool) (num den : Nat) : Double :=
  if h : nearestRank num den < rankLimit then .finite negative ⟨nearestRank num den, h⟩
  else .infinite negative

/-- Zero with the given sign. -/
def zero (negative : Bool) : Double := .finite negative ⟨0, by decide⟩

/-! ### Classification -/

/-- Tells NaN. -/
def isNaN : Double → Bool
  | .nan => true
  | _ => false

/-- Tells finite doubles, the ones that a decimal can spell. -/
def isFinite : Double → Bool
  | .finite .. => true
  | _ => false

/-- Tells both zeros. -/
def isZero : Double → Bool
  | .finite _ r => r.val == 0
  | _ => false

/-- The sign; negative zero has one, NaN has none. -/
def isNegative : Double → Bool
  | .nan => false
  | .infinite s => s
  | .finite s _ => s

/-- Tells finite doubles without a fraction. -/
def isInteger : Double → Bool
  | .finite _ r => rankUnits r % one == 0
  | _ => false

/-! ### The 64 bit coding -/

/-- The bit that tells negative doubles. -/
def signBit : Nat := 0x8000000000000000

/-- The 64 bits of a double as a number below `2 ^ 64`. -/
def toBits : Double → Nat
  | .nan => 0x7ff8000000000000
  | .infinite s => (if s then signBit else 0) + rankLimit
  | .finite s r => (if s then signBit else 0) + r

/-- The double that 64 bits code. -/
def ofBits (bits : Nat) : Double :=
  let negative := decide (signBit ≤ bits)
  let magnitude := bits % signBit
  if h : magnitude < rankLimit then .finite negative ⟨magnitude, h⟩
  else if magnitude = rankLimit then .infinite negative
  else .nan

end Double

end ActionTree
