import ActionTree.Operator
import ActionTree.Value.Coercion

/-!
# Operators on known values

* `Value.strictEquals`, `Value.looseEquals`, `Value.lessThan?` - the comparisons;
* `BinaryOperator.apply`, `UnaryOperator.apply` - the value of an operator on known operands.
-/

namespace ActionTree

namespace Value

/-! ### Comparisons -/

/-- Equality without conversion. -/
def strictEquals : Value → Value → Bool
  | .undefined, .undefined => true
  | .null, .null => true
  | .boolean a, .boolean b => a == b
  | .number a, .number b => a.equals b
  | .string a, .string b => a == b
  | _, _ => false

/-- Equality with conversion: `null` and `undefined` equal each other alone, booleans compare as
numbers, and so does a number with a string. -/
def looseEquals : Value → Value → Bool
  | .unknown, _ => false
  | _, .unknown => false
  | .undefined, .undefined | .undefined, .null | .null, .undefined | .null, .null => true
  | .undefined, _ | .null, _ | _, .undefined | _, .null => false
  | .string a, .string b => a == b
  | a, b => a.toNumber.equals b.toNumber

/-- Whether one value lies below another, strings by their 16 bit units and all else as numbers.
Undefined when NaN is involved. -/
def lessThan? : Value → Value → Option Bool
  | .string a, .string b => some (Text.unitsBefore a b)
  | a, b => a.toNumber.lt? b.toNumber

/-- Equality of values as data: numbers by value, so NaN differs from itself, and `unknown` equals
itself. -/
def same : Value → Value → Bool
  | .unknown, .unknown => true
  | a, b => a.strictEquals b

end Value

/-! ### Operators -/

/-- The shift distance that a value gives. -/
def shiftDistance (v : Value) : Nat := v.toUInt32.toNat % 32

/-- The value of a binary operator on two values.  Nothing is known of unknown operands or about
types. -/
def BinaryOperator.apply (op : BinaryOperator) (a b : Value) : Value :=
  if a.isKnown && b.isKnown then
    match op with
    | .add =>
      match a, b with
      | .string s, b => .string (s ++ b.toText)
      | a, .string t => .string (a.toText ++ t)
      | a, b => .number (a.toNumber.add b.toNumber)
    | .subtract => .number (a.toNumber.sub b.toNumber)
    | .multiply => .number (a.toNumber.mul b.toNumber)
    | .divide => .number (a.toNumber.div b.toNumber)
    | .modulo => .number (a.toNumber.rem b.toNumber)
    | .bitAnd => .ofInt32 (a.toInt32 &&& b.toInt32)
    | .bitOr => .ofInt32 (a.toInt32 ||| b.toInt32)
    | .bitXor => .ofInt32 (a.toInt32 ^^^ b.toInt32)
    | .leftShift => .ofInt32 (a.toInt32 <<< Int32.ofNat (shiftDistance b))
    | .rightShift => .ofInt32 (a.toInt32 >>> Int32.ofNat (shiftDistance b))
    | .unsignedRightShift => .ofUInt32 (a.toUInt32 >>> UInt32.ofNat (shiftDistance b))
    | .equals => .boolean (a.looseEquals b)
    | .notEquals => .boolean (!a.looseEquals b)
    | .strictEquals => .boolean (a.strictEquals b)
    | .strictNotEquals => .boolean (!a.strictEquals b)
    | .lessThan => .boolean ((a.lessThan? b).getD false)
    | .greaterThan => .boolean ((b.lessThan? a).getD false)
    | .lessEquals => .boolean ((b.lessThan? a).any (!·))
    | .greaterEquals => .boolean ((a.lessThan? b).any (!·))
    | .logicalAnd => if a.toBoolean then b else a
    | .logicalOr => if a.toBoolean then a else b
    | .in | .instanceOf | .is | .as => .unknown
  else .unknown

/-- The value of a unary operator. -/
def UnaryOperator.apply (op : UnaryOperator) (v : Value) : Value :=
  if v.isKnown then
    match op with
    | .not => .boolean (!v.toBoolean)
    | .void => .undefined
    | .negate => .number v.toNumber.neg
    | .bitNot => .ofInt32 (~~~v.toInt32)
    | .typeOf => .string v.typeOf
  else .unknown

end ActionTree
