import ActionTree.Double.Basic

/-!
# Arithmetic on doubles

Each operation computes the exact result on units and rounds it once.

* `Double.add`, `sub`, `mul`, `div` - the four operations, rounded to nearest;
* `Double.rem` - the exact remainder with the sign of the dividend;
* `Double.lt?`, `Double.equals` - comparison by value, where NaN equals nothing;
* `Double.toUInt32`, `Double.toInt32` - the integer part modulo `2 ^ 32`.
-/

namespace ActionTree.Double

/-! ### From integers -/

/-- The double nearest to an integer. -/
def ofInt (i : Int) : Double := round (i < 0) (i.natAbs * one) 1

/-- The double nearest to a natural number. -/
def ofNat (n : Nat) : Double := round false (n * one) 1

/-! ### The four operations -/

/-- The signed number of units. -/
def signedUnits (negative : Bool) (r : Fin rankLimit) : Int :=
  if negative then -(rankUnits r : Int) else rankUnits r

/-- The opposite number; a zero changes its sign too. -/
def neg : Double → Double
  | .nan => .nan
  | .infinite s => .infinite (!s)
  | .finite s r => .finite (!s) r

/-- The sum.  A sum that cancels is positive zero, unless both operands are negative zeros. -/
def add : Double → Double → Double
  | .nan, _ => .nan
  | _, .nan => .nan
  | .infinite s, .infinite t => if s = t then .infinite s else .nan
  | .infinite s, .finite .. => .infinite s
  | .finite .., .infinite t => .infinite t
  | .finite s a, .finite t b =>
    let sum := signedUnits s a + signedUnits t b
    if sum = 0 then zero (s && t) else round (sum < 0) sum.natAbs 1

/-- The difference. -/
def sub (x y : Double) : Double := x.add y.neg

/-- The product; zero times infinity is NaN. -/
def mul : Double → Double → Double
  | .nan, _ => .nan
  | _, .nan => .nan
  | .infinite s, .infinite t => .infinite (s != t)
  | .infinite s, .finite t b => if b.val = 0 then .nan else .infinite (s != t)
  | .finite s a, .infinite t => if a.val = 0 then .nan else .infinite (s != t)
  | .finite s a, .finite t b => round (s != t) (rankUnits a * rankUnits b) one

/-- The quotient; zero by zero and infinity by infinity are NaN. -/
def div : Double → Double → Double
  | .nan, _ => .nan
  | _, .nan => .nan
  | .infinite _, .infinite _ => .nan
  | .infinite s, .finite t _ => .infinite (s != t)
  | .finite s _, .infinite t => zero (s != t)
  | .finite s a, .finite t b =>
    if b.val = 0 then
      if a.val = 0 then .nan else .infinite (s != t)
    else round (s != t) (rankUnits a * one) (rankUnits b)

/-- The remainder of the quotient cut toward zero, exact, with the sign of the dividend. -/
def rem : Double → Double → Double
  | .nan, _ => .nan
  | _, .nan => .nan
  | .infinite _, _ => .nan
  | .finite s a, .infinite _ => .finite s a
  | .finite s a, .finite _ b =>
    if b.val = 0 then .nan else round s (rankUnits a % rankUnits b) 1

/-! ### Comparison -/

/-- The place of a double on the number line, with both zeros at the origin; NaN has none. -/
def place? : Double → Option Int
  | .nan => none
  | .infinite s => some (if s then -(rankLimit : Int) else rankLimit)
  | .finite s r => some (if s then -(r.val : Int) else r.val)

/-- Tells doubles of equal value: the zeros are equal, NaN differs from itself. -/
def equals (x y : Double) : Bool :=
  match x.place?, y.place? with
  | some a, some b => a == b
  | _, _ => false

/-- Whether `x` lies below `y`; undefined when one of them is NaN. -/
def lt? (x y : Double) : Option Bool :=
  match x.place?, y.place? with
  | some a, some b => some (decide (a < b))
  | _, _ => none

/-! ### Integer parts -/

/-- The integer part modulo `2 ^ 32`; infinities and NaN give zero. -/
def toUInt32 : Double → UInt32
  | .finite s r =>
    let w := UInt32.ofNat (rankUnits r / one)
    if s then -w else w
  | _ => 0

/-- The integer part modulo `2 ^ 32`, read as a signed word. -/
def toInt32 (x : Double) : Int32 := x.toUInt32.toInt32

/-- The integer part, cut toward zero; infinities and NaN give zero. -/
def truncate : Double → Int
  | .finite s r => if s then -(rankUnits r / one : Nat) else (rankUnits r / one : Nat)
  | _ => 0

end ActionTree.Double
