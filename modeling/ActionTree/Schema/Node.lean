import ActionTree.Schema.Name

/-!
# Trees in JSON

* `NumberCoding` - how number literals are written: as JSON numbers, or exactly as 64 bits;
* `Node.toJson` - a tree as JSON;
* `Node.read` - reads a tree.
-/

namespace ActionTree

open Json

/-! ### Number literals -/

/-- How number literals are written and read. -/
structure NumberCoding where
  write : Double → Json
  read : Reader Double

namespace NumberCoding

/-- JSON numbers, which cannot write NaN and infinities. -/
def plain : NumberCoding := ⟨ofDouble, readDouble⟩

/-- A number as 16 hexadecimal digits, the high ones first. -/
def hex16 (n : Nat) : String :=
  String.ofList ((List.range 16).map fun i => Nat.digitChar (n >>> (4 * (15 - i)) % 16))

/-- The text of the 64 bits of a double, `nan` for NaN. -/
def bitsText (x : Double) : String := if x.isNaN then "nan" else hex16 x.toBits

/-- The double of such a text. -/
def ofBitsText? (s : String) : Option Double :=
  if s = "nan" then some .nan
  else match s.toList.mapM Text.hexValue? with
    | some digits =>
      if digits.length = 16 then some (.ofBits (digits.foldl (fun n d => n * 16 + d) 0)) else none
    | none => none

/-- The 64 bits in a string; JSON numbers are read too. -/
def bits : NumberCoding where
  write x := text (bitsText x)
  read
    | _, .string (some s) => ofBitsText? s
    | depth, j => readDouble depth j

end NumberCoding

/-! ### Writing -/

/-- A property name as JSON. -/
def Property.toJson (p : Property Json) : Json :=
  ofMembers [("name", p.name.toJson), ("runtime_name", ofOption id p.runtime)]

/-- A compound form as JSON. -/
def Compound.toJson (c : Compound Json) : Json :=
  ofMembers [("operator", text c.operator.jsonName), ("value", c.value)]

/-- The end of an assignment as JSON. -/
def assignedMembers (value : Json) (compound : Option (Compound Json))
    (declaration : Option UInt64) : List (String × Json) := [
  ("value", value), ("compound", ofOption Compound.toJson compound),
  ("declaration", ofOption (fun d => ofNat d.toNat) declaration)]

/-- The data of a kind, if it has any, given its parts as JSON. -/
def Kind.data? (coding : NumberCoding) : Kind Json → Option Json
  | .literal (.int i) => some (ofInt i.toInt)
  | .literal (.uint i) => some (ofNat i.toNat)
  | .literal (.number x) => some (coding.write x)
  | .literal (.string s) => some (text s)
  | .literal (.boolean b) => some (.boolean b)
  | .literal .null | .literal .undefined | .this | .returnVoid => none
  | .register i t => some (ofMembers [("register", ofNat i.toNat), ("ty", t.toJson)])
  | .scope p => some (ofMembers [("property", p.toJson)])
  | .duplicate v | .returnValue v | .throw v => some (ofMembers [("value", v)])
  | .convert t v | .coerce t v => some (ofMembers [("ty", t.toJson), ("value", v)])
  | .get o p t =>
    some (ofMembers [("object", o), ("property", p.toJson), ("ty", t.toJson)])
  | .getSuper o p => some (ofMembers [("object", o), ("property", p.toJson)])
  | .call _ o p as =>
    some (ofMembers [("object", o), ("property", p.toJson), ("arguments", .array as)])
  | .construct o as => some (ofMembers [("object", o), ("arguments", .array as)])
  | .assign (.register i) v c d =>
    some (ofMembers (("register", ofNat i.toNat) :: assignedMembers v c d))
  | .assign (.property _ o p) v c d =>
    some (ofMembers (("object", o) :: ("property", p.toJson) :: assignedMembers v c d))
  | .binary op l r =>
    some (ofMembers [("operator", text op.jsonName), ("left", l), ("right", r)])
  | .unary op v => some (ofMembers [("operator", text op.jsonName), ("value", v)])
  | .ternary c a b => some (ofMembers [("condition", c), ("on_true", a), ("on_false", b)])
  | .declare i t v =>
    some (ofMembers [("register", ofNat i.toNat), ("ty", t.toJson), ("value", ofOption id v)])

/-- A kind as JSON: its name, with its data if it has any. -/
def Kind.toJson (coding : NumberCoding) (k : Kind Json) : Json :=
  match k.data? coding with
  | some j => ofMembers [(k.name, j)]
  | none => text k.name

/-- A tree as JSON. -/
def Node.toJson (coding : NumberCoding) : Node → Json :=
  Node.recurse fun kind origin =>
    ofMembers [("kind", (kind.map (·.2)).toJson coding), ("source", origin.toJson)]

/-! ### Reading -/

variable {α : Type}

/-- Reads a property name. -/
def Property.read (part : Reader α) : Reader (Property α) :=
  record ["name", "runtime_name"] fun depth fields => do
    let name ← required "name" QualifiedName.read depth fields
    let runtime ← optional "runtime_name" part depth fields
    return ⟨name, runtime⟩

/-- Reads a compound form. -/
def Compound.read (part : Reader α) : Reader (Compound α) :=
  record ["operator", "value"] fun depth fields => do
    let operator ← required "operator" BinaryOperator.read depth fields
    let value ← required "value" part depth fields
    return ⟨operator, value⟩

namespace Kind

/-- Reads the data of a kind that is only a value. -/
def readValue (part : Reader α) : Reader α :=
  record ["value"] fun depth fields => required "value" part depth fields

/-- Reads the data of a conversion. -/
def readConversion (part : Reader α) : Reader (StaticType × α) :=
  record ["ty", "value"] fun depth fields => do
    let type ← required "ty" StaticType.read depth fields
    let value ← required "value" part depth fields
    return (type, value)

/-- Reads a register with its type. -/
def readRegister : Reader (Kind α) :=
  record ["register", "ty"] fun depth fields => do
    let index ← required "register" readUInt32 depth fields
    let type ← defaulted "ty" StaticType.any StaticType.read depth fields
    return .register index type

/-- Reads a lookup in the scope chain. -/
def readScope (part : Reader α) : Reader (Kind α) :=
  record ["property"] fun depth fields => do
    let p ← required "property" (Property.read part) depth fields
    return .scope p

/-- Reads the read of a property. -/
def readGet (part : Reader α) : Reader (Kind α) :=
  record ["object", "property", "ty"] fun depth fields => do
    let object ← required "object" part depth fields
    let p ← required "property" (Property.read part) depth fields
    let type ← defaulted "ty" StaticType.any StaticType.read depth fields
    return .get object p type

/-- Reads the read of a property past the class. -/
def readGetSuper (part : Reader α) : Reader (Kind α) :=
  record ["object", "property"] fun depth fields => do
    let object ← required "object" part depth fields
    let p ← required "property" (Property.read part) depth fields
    return .getSuper object p

/-- Reads a call. -/
def readCall (lookup : Lookup) (part : Reader α) : Reader (Kind α) :=
  record ["object", "property", "arguments"] fun depth fields => do
    let object ← required "object" part depth fields
    let p ← required "property" (Property.read part) depth fields
    let arguments ← defaulted "arguments" [] (readList part) depth fields
    return .call lookup object p arguments

/-- Reads the call of the constructor of the superclass. -/
def readConstruct (part : Reader α) : Reader (Kind α) :=
  record ["object", "arguments"] fun depth fields => do
    let object ← required "object" part depth fields
    let arguments ← defaulted "arguments" [] (readList part) depth fields
    return .construct object arguments

/-- Reads an assignment to a property. -/
def readAssignProperty (lookup : Lookup) (part : Reader α) : Reader (Kind α) :=
  record ["object", "property", "value", "compound", "declaration"] fun depth fields => do
    let object ← required "object" part depth fields
    let p ← required "property" (Property.read part) depth fields
    let value ← required "value" part depth fields
    let compound ← optional "compound" (Compound.read part) depth fields
    let declaration ← optional "declaration" readUInt64 depth fields
    return .assign (.property lookup object p) value compound declaration

/-- Reads an assignment to a register. -/
def readAssignRegister (part : Reader α) : Reader (Kind α) :=
  record ["register", "value", "compound", "declaration"] fun depth fields => do
    let index ← required "register" readUInt32 depth fields
    let value ← required "value" part depth fields
    let compound ← optional "compound" (Compound.read part) depth fields
    let declaration ← optional "declaration" readUInt64 depth fields
    return .assign (.register index) value compound declaration

/-- Reads a binary operation. -/
def readBinary (part : Reader α) : Reader (Kind α) :=
  record ["operator", "left", "right"] fun depth fields => do
    let operator ← required "operator" BinaryOperator.read depth fields
    let left ← required "left" part depth fields
    let right ← required "right" part depth fields
    return .binary operator left right

/-- Reads a unary operation. -/
def readUnary (part : Reader α) : Reader (Kind α) :=
  record ["operator", "value"] fun depth fields => do
    let operator ← required "operator" UnaryOperator.read depth fields
    let value ← required "value" part depth fields
    return .unary operator value

/-- Reads a choice. -/
def readTernary (part : Reader α) : Reader (Kind α) :=
  record ["condition", "on_true", "on_false"] fun depth fields => do
    let condition ← required "condition" part depth fields
    let onTrue ← required "on_true" part depth fields
    let onFalse ← required "on_false" part depth fields
    return .ternary condition onTrue onFalse

/-- Reads a declaration. -/
def readDeclare (part : Reader α) : Reader (Kind α) :=
  record ["register", "ty", "value"] fun depth fields => do
    let index ← required "register" readUInt32 depth fields
    let type ← defaulted "ty" StaticType.any StaticType.read depth fields
    let value ← optional "value" part depth fields
    return .declare index type value

/-- Reads the data of a named kind. -/
def readData (coding : NumberCoding) (part : Reader α) (name : String) (depth : Nat) (j : Json) :
    Option (Kind α) :=
  match name with
  | "Integer" => (readInt32 depth j).map fun i => .literal (.int i)
  | "UInteger" => (readUInt32 depth j).map fun i => .literal (.uint i)
  | "Number" => (coding.read depth j).map fun x => .literal (.number x)
  | "String" => (readText depth j).map fun s => .literal (.string s)
  | "Boolean" => (readBoolean depth j).map fun b => .literal (.boolean b)
  | "LocalRegister" => readRegister depth j
  | "FindProperty" => readScope part depth j
  | "Duplicate" => (readValue part depth j).map .duplicate
  | "Convert" => (readConversion part depth j).map fun (t, v) => .convert t v
  | "Coerce" => (readConversion part depth j).map fun (t, v) => .coerce t v
  | "GetProperty" => readGet part depth j
  | "SetProperty" => readAssignProperty .direct part depth j
  | "CallProperty" => readCall .direct part depth j
  | "GetSuper" => readGetSuper part depth j
  | "SetSuper" => readAssignProperty .super part depth j
  | "CallSuper" => readCall .super part depth j
  | "ConstructSuper" => readConstruct part depth j
  | "BinaryOp" => readBinary part depth j
  | "UnaryOp" => readUnary part depth j
  | "Ternary" => readTernary part depth j
  | "SetLocal" => readAssignRegister part depth j
  | "Declaration" => readDeclare part depth j
  | "ReturnValue" => (readValue part depth j).map .returnValue
  | "Throw" => (readValue part depth j).map .throw
  | _ => none

/-- Reads a kind. -/
def read (coding : NumberCoding) (part : Reader α) : Reader (Kind α) :=
  variant fun depth name j =>
    match name with
    | "Null" => bare (.literal .null) j
    | "Undefined" => bare (.literal .undefined) j
    | "This" => bare .this j
    | "ReturnVoid" => bare .returnVoid j
    | _ => data (readData coding part name depth) j

end Kind

namespace Node

/-- Reads a tree of at most `height` nodes on a path from the root. -/
def readWithin (coding : NumberCoding) : Nat → Reader Node
  | 0, _, _ => none
  | height + 1, depth, j =>
    record ["kind", "source"] (fun depth fields => do
      let kind ← required "kind" (Kind.read coding (readWithin coding height)) depth fields
      let origin ← defaulted "source" Origin.synthetic Origin.read depth fields
      return ⟨kind, origin⟩) depth j

/-- Reads a tree.  Every node nests at least one level, so a tree is no higher than its text is
deep. -/
def read (coding : NumberCoding) : Reader Node :=
  fun depth j => readWithin coding depth depth j

end Node

end ActionTree
