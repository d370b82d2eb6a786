import ActionTree.Value.Operation

/-!
# Literals

* `Literal` - the values that can be written in source text;
* `Literal.value`, `Literal.type`, `Literal.text` - what a literal denotes, its type, its text;
* `Literal.ofValue?` - the literal of a known value, typed after the expression it stands for.
-/

namespace ActionTree

/-- A literal. -/
inductive Literal where
  | int (value : Int32)
  | uint (value : UInt32)
  | number (value : Double)
  | string (value : String)
  | boolean (value : Bool)
  | null
  | undefined
  deriving DecidableEq, Inhabited

namespace Literal

/-- The value of a literal. -/
def value : Literal → Value
  | .int i => .ofInt32 i
  | .uint i => .ofUInt32 i
  | .number x => .number x
  | .string s => .string s
  | .boolean b => .boolean b
  | .null => .null
  | .undefined => .undefined

/-- The static type of a literal. -/
def type : Literal → StaticType
  | .int _ => .int
  | .uint _ => .uint
  | .number _ => .number
  | .string _ => .string
  | .boolean _ => .boolean
  | .null => .object
  | .undefined => .any

/-- The digits of an integer, with a minus when it is negative. -/
def integerText (i : Int) : String :=
  String.ofList (if i < 0 then '-' :: Nat.toDigits 10 i.natAbs else Nat.toDigits 10 i.natAbs)

/-- The source text of a literal. -/
def text : Literal → String
  | .int i => integerText i.toInt
  | .uint i => integerText i.toNat
  | .number x => numberLiteral x
  | .string s => Text.quote s
  | .boolean b => if b then "true" else "false"
  | .null => "null"
  | .undefined => "undefined"

/-- Whether the text of a literal starts with a minus. -/
def isNegative : Literal → Bool
  | .int i => i < 0
  | .number x => x.isNegative
  | _ => false

/-- Negative literals bind like a negation. -/
def precedence (l : Literal) : Precedence := if l.isNegative then .unary else .primary

/-- The literal of a number in a context of a static type.  Integers other than negative zero become
`int` or `uint` literals where the type says so and the range allows. -/
def ofNumber (x : Double) (type : StaticType) : Literal :=
  let integral := x.isInteger && !(x.isZero && x.isNegative)
  match type with
  | .int =>
    if integral && (Int32.minValue.toInt ≤ x.truncate && x.truncate ≤ Int32.maxValue.toInt) then
      .int (Int32.ofInt x.truncate)
    else .number x
  | .uint =>
    if integral && (0 ≤ x.truncate && x.truncate < UInt32.size) then
      .uint (UInt32.ofNat x.truncate.toNat)
    else .number x
  | _ => .number x

/-- The literal of a value in a context of a static type. -/
def ofValue? (v : Value) (type : StaticType) : Option Literal :=
  match v with
  | .undefined => some .undefined
  | .null => some .null
  | .boolean b => some (.boolean b)
  | .string s => some (.string s)
  | .number x => some (ofNumber x type)
  | .unknown => none

end Literal

end ActionTree
