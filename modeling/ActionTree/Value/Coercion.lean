import ActionTree.Decimal.Layout
import ActionTree.Double.Arithmetic
import ActionTree.StaticType
import ActionTree.Text.Basic
import ActionTree.Text.Quoted

/-!
# Primitive values and their coercions

The conversions are those of ECMAScript.

* `Value` - a primitive value known without running, or `unknown` for what cannot be computed ahead;
* `Value.toBoolean`, `Value.toNumber`, `Value.toInt32`, `Value.toUInt32`, `Value.toText`;
* `stringToNumber` - the number that a string spells, NaN when it spells none;
* `numberText` - the string of a number, and `numberLiteral` - its literal;
* `Value.convert` and `Value.coerce` - a value brought to a static type.
-/

namespace ActionTree

/-! ### Values -/

/-- A value of the language.  `unknown` is some object whose contents are not tracked: it is truthy
and equals nothing. -/
inductive Value where
  | undefined
  | null
  | boolean (value : Bool)
  | number (value : Double)
  | string (value : String)
  | unknown
  deriving DecidableEq, Inhabited

/-- Tells the values that can be written as a literal. -/
def Value.isKnown : Value → Bool
  | .unknown => false
  | _ => true

/-! ### Numbers as text -/

/-- Numbers are written positionally from `1e-6` up to below `1e21`. -/
def numberStyle : NumberStyle := ⟨.up, -5, 21, none⟩

/-- The string of a number; both zeros give `0`. -/
def numberText (x : Double) : String := if x.isZero then "0" else numberStyle.write x

/-- The literal of a number, which keeps the sign of negative zero. -/
def numberLiteral (x : Double) : String := numberStyle.write x

/-! ### Text as a number -/

/-- One more hexadecimal digit, accumulated in double arithmetic. -/
def hexStep (acc : Double) (digit : Nat) : Double := (acc.mul (.ofNat 16)).add (.ofNat digit)

/-- The number that hexadecimal digits spell; NaN for none and for other characters. -/
def hexToNumber (cs : List Char) : Double :=
  if cs.isEmpty then .nan
  else match cs.mapM Text.hexValue? with
    | some digits => digits.foldl hexStep (.zero false)
    | none => .nan

/-- The number that unsigned decimal text spells. -/
def unsignedToNumber (cs : List Char) : Double :=
  if cs = "Infinity".toList then .infinite false
  else match Numeral.read? cs with
    | some n => n.toDouble
    | none => .nan

/-- The number that a string spells between blanks.  Hexadecimal numbers take no sign, and the empty
string is zero. -/
def stringToNumber (s : String) : Double :=
  match Text.trim s.toList with
  | [] => .zero false
  | '0' :: 'x' :: hex => hexToNumber hex
  | '0' :: 'X' :: hex => hexToNumber hex
  | '-' :: rest => (unsignedToNumber rest).neg
  | '+' :: rest => unsignedToNumber rest
  | cs => unsignedToNumber cs

namespace Value

/-! ### The conversions -/

/-- The truth of a value: empty strings, zeros, NaN, `null` and `undefined` are false. -/
def toBoolean : Value → Bool
  | .undefined | .null => false
  | .boolean b => b
  | .number x => !(x.isZero || x.isNaN)
  | .string s => !s.isEmpty
  | .unknown => true

/-- The number of a value. -/
def toNumber : Value → Double
  | .undefined => .nan
  | .null => .zero false
  | .boolean b => .ofNat b.toNat
  | .number x => x
  | .string s => stringToNumber s
  | .unknown => .nan

/-- The signed 32 bit integer of a value. -/
def toInt32 (v : Value) : Int32 := v.toNumber.toInt32

/-- The unsigned 32 bit integer of a value. -/
def toUInt32 (v : Value) : UInt32 := v.toNumber.toUInt32

/-- The string of a value. -/
def toText : Value → String
  | .undefined => "undefined"
  | .null => "null"
  | .boolean b => if b then "true" else "false"
  | .number x => numberText x
  | .string s => s
  | .unknown => "[object Object]"

/-- The name of a value's type. -/
def typeOf : Value → String
  | .undefined => "undefined"
  | .null => "object"
  | .boolean _ => "boolean"
  | .number _ => "number"
  | .string _ => "string"
  | .unknown => "object"

/-- A value as shown to a reader: strings in quotes, the rest as their string. -/
def display : Value → String
  | .string s => Text.display s
  | v => v.toText

/-- A signed word as a number. -/
def ofInt32 (i : Int32) : Value := .number (.ofInt i.toInt)

/-- An unsigned word as a number. -/
def ofUInt32 (i : UInt32) : Value := .number (.ofNat i.toNat)

/-- An explicit conversion.  `Object` passes values through; outside the primitive types nothing is
known. -/
def convert (v : Value) (type : StaticType) : Value :=
  if v.isKnown then
    match type with
    | .boolean => .boolean v.toBoolean
    | .number => .number v.toNumber
    | .int => .ofInt32 v.toInt32
    | .uint => .ofUInt32 v.toUInt32
    | .string => .string v.toText
    | .object => v
    | _ => .unknown
  else .unknown

/-- An implicit coercion.  To `String` it keeps `null` and takes `undefined` to `null`; outside the
primitive types it passes values through. -/
def coerce (v : Value) (type : StaticType) : Value :=
  if v.isKnown then
    match type with
    | .string => match v with
      | .null | .undefined => .null
      | v => .string v.toText
    | .boolean => .boolean v.toBoolean
    | .number => .number v.toNumber
    | .int => .ofInt32 v.toInt32
    | .uint => .ofUInt32 v.toUInt32
    | _ => v
  else .unknown

end Value

end ActionTree
