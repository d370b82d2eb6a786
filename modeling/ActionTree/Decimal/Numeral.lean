import ActionTree.Decimal.Basic

/-!
# Numbers as written

A numeral is the written form of a decimal: digits, perhaps a point and more digits, perhaps an
exponent.

* `Numeral.text` - the characters of a numeral;
* `Numeral.read?` - the unsigned numeral that a whole text spells;
* `Numeral.toDecimal`, `Numeral.toDouble` - its value.
-/

namespace ActionTree

/-- A number as written.  `fraction` is `none` without a point; an exponent has a sign, `true` for
minus. -/
structure Numeral where
  negative : Bool
  whole : List Char
  fraction : Option (List Char)
  exponent : Option (Bool × List Char)
  deriving DecidableEq, Inhabited

namespace Numeral

/-! ### Digits -/

/-- The value of one decimal digit. -/
def digitValue (c : Char) : Nat := c.toNat - 48

/-- The number that decimal digits spell when they follow the digits of `start`. -/
def digitsValue (start : Nat) (cs : List Char) : Nat :=
  cs.foldl (fun n c => n * 10 + digitValue c) start

/-! ### Writing -/

/-- The point and the digits after it. -/
def fractionText : Option (List Char) → List Char
  | none => []
  | some ds => '.' :: ds

/-- The exponent, with its sign always written. -/
def exponentText : Option (Bool × List Char) → List Char
  | none => []
  | some (minus, ds) => 'e' :: (if minus then '-' else '+') :: ds

/-- The numeral without its sign. -/
def unsignedText (n : Numeral) : List Char :=
  n.whole ++ fractionText n.fraction ++ exponentText n.exponent

/-- The numeral written out. -/
def text (n : Numeral) : List Char :=
  if n.negative then '-' :: n.unsignedText else n.unsignedText

/-! ### Reading -/

/-- The exponent that ends a numeral: nothing, or `e` or `E`, an optional sign and digits. -/
def readExponent? : List Char → Option (Option (Bool × List Char))
  | [] => some none
  | c :: rest =>
    let (minus, ds) := match rest with
      | '-' :: ds => (true, ds)
      | '+' :: ds => (false, ds)
      | ds => (false, ds)
    if (c = 'e' ∨ c = 'E') ∧ ds ≠ [] ∧ ds.all Char.isDigit then some (some (minus, ds)) else none

/-- The fraction after a point, and the rest. -/
def readFraction : List Char → Option (List Char) × List Char
  | '.' :: rest => (some (rest.takeWhile Char.isDigit), rest.dropWhile Char.isDigit)
  | rest => (none, rest)

/-- The unsigned numeral that a whole text spells.  It needs a digit before its exponent, on either
side of the point. -/
def read? (cs : List Char) : Option Numeral :=
  let whole := cs.takeWhile Char.isDigit
  let (fraction, rest) := readFraction (cs.dropWhile Char.isDigit)
  if whole = [] ∧ fraction.getD [] = [] then none
  else (readExponent? rest).map fun exponent => ⟨false, whole, fraction, exponent⟩

/-! ### Values -/

/-- The exponent as an integer. -/
def exponentValue : Option (Bool × List Char) → Int
  | none => 0
  | some (minus, ds) => if minus then -(digitsValue 0 ds : Int) else digitsValue 0 ds

/-- The magnitude that a numeral spells. -/
def toDecimal (n : Numeral) : Decimal :=
  let fraction := n.fraction.getD []
  ⟨digitsValue (digitsValue 0 n.whole) fraction, exponentValue n.exponent - fraction.length⟩

/-- The double nearest to a numeral. -/
def toDouble (n : Numeral) : Double := n.toDecimal.toDouble n.negative

end Numeral

end ActionTree
