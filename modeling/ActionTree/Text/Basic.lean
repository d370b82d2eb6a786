/-!
# Characters of a text

* `isBlank` - the characters of the property `White_Space`;
* `trim` - text without blanks at either end;
* `units16` - the UTF-16 units of a text;
* `unitsBefore` - the lexicographic order of those units.  It differs from the order of characters
  where one text has a character past `0xffff` and the other one from `0xe000` on.
-/

namespace ActionTree.Text

/-! ### Blanks -/

/-- The characters with the property `White_Space`. -/
def isBlank (c : Char) : Bool :=
  let n := c.toNat
  (0x09 ≤ n && n ≤ 0x0d) || n == 0x20 || n == 0x85 || n == 0xa0 || n == 0x1680
    || (0x2000 ≤ n && n ≤ 0x200a) || n == 0x2028 || n == 0x2029 || n == 0x202f || n == 0x205f
    || n == 0x3000

/-- The text without the blanks at its ends. -/
def trim (cs : List Char) : List Char :=
  ((cs.dropWhile isBlank).reverse.dropWhile isBlank).reverse

/-! ### Units -/

/-- The one or two 16 bit units of a character. -/
def charUnits (c : Char) : List Nat :=
  let n := c.toNat
  if n < 0x10000 then [n]
  else [0xd800 + (n - 0x10000) / 0x400, 0xdc00 + (n - 0x10000) % 0x400]

/-- The 16 bit units of a text. -/
def units16 (s : String) : List Nat := s.toList.flatMap charUnits

/-- Whether `s` comes strictly before `t` in the order of their units. -/
def unitsBefore (s t : String) : Bool := decide (units16 s < units16 t)

end ActionTree.Text
