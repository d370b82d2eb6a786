import ActionTree.Decimal.Numeral
import ActionTree.Decimal.Shortest

/-!
# The numeral of a double

* `Numeral.positional`, `Numeral.scientific` - the two ways to place a point in digits;
* `NumberStyle` - what a notation decides: where positional writing ends, whether an integer gets
  a fraction, which way a tie goes;
* `NumberStyle.numeral` - the numeral of a finite double in a style.
-/

namespace ActionTree

namespace Numeral

/-- The value `0.ds * 10 ^ n` in full; `integral` is the fraction of a value that has none. -/
def positional (integral : Option (List Char)) (ds : List Char) (n : Int) : Numeral :=
  if n ≤ 0 then ⟨false, ['0'], some (List.replicate (-n).toNat '0' ++ ds), none⟩
  else if ds.length ≤ n.toNat then
    ⟨false, ds ++ List.replicate (n.toNat - ds.length) '0', integral, none⟩
  else ⟨false, ds.take n.toNat, some (ds.drop n.toNat), none⟩

/-- The value `0.ds * 10 ^ n` with one digit before the point, if a point is needed, and an
exponent. -/
def scientific (ds : List Char) (n : Int) : Numeral :=
  let fraction := if ds.length ≤ 1 then none else some (ds.drop 1)
  ⟨false, ds.take 1, fraction, some (decide (n ≤ 0), Nat.toDigits 10 (n - 1).natAbs)⟩

end Numeral

/-- How a notation writes numbers. -/
structure NumberStyle where
  /-- The side taken when two shortest decimals are equally near. -/
  tie : Decimal.Tie
  /-- The least place of the point, counted from before the first digit, in positional writing. -/
  leastPoint : Int
  /-- The greatest such place. -/
  greatestPoint : Int
  /-- The fraction that an integer gets. -/
  integral : Option (List Char)

namespace NumberStyle

/-- The numeral of the decimal whose coefficient has the digits `ds`. -/
def place (style : NumberStyle) (ds : List Char) (e : Int) : Numeral :=
  let n := ds.length + e
  if style.leastPoint ≤ n ∧ n ≤ style.greatestPoint then .positional style.integral ds n
  else .scientific ds n

/-- The digits and the exponent of the shortest decimal of a rank; zero is the digit `0`. -/
def digits (style : NumberStyle) (r : Nat) : List Char × Int :=
  if r = 0 then (['0'], 0)
  else
    let d := Decimal.shortest style.tie r
    (Nat.toDigits 10 d.coefficient, d.exponent)

/-- The numeral of a finite double, with the sign of negative zero. -/
def numeral (style : NumberStyle) (negative : Bool) (r : Nat) : Numeral :=
  { style.place (style.digits r).1 (style.digits r).2 with negative }

/-- The text of a double. -/
def write (style : NumberStyle) : Double → String
  | .nan => "NaN"
  | .infinite s => if s then "-Infinity" else "Infinity"
  | .finite s r => String.ofList (style.numeral s r).text

end NumberStyle

end ActionTree
