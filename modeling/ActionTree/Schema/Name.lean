import ActionTree.Json.Decode
import ActionTree.Node.Basic

/-!
# Names, types, operators and origins in JSON

Each type has a `toJson` and a `read`.  Fields with a default may be left out when read and are
always written.
-/

namespace ActionTree

open Json

/-! ### Namespaces and names -/

namespace NamespaceKind

/-- The names of the kinds. -/
def names : List (String × NamespaceKind) := [
  ("Package", .package), ("PackageInternal", .packageInternal), ("Protected", .protected),
  ("Private", .private), ("Explicit", .explicit), ("StaticProtected", .staticProtected),
  ("Namespace", .plain)]

/-- The name of a kind. -/
def jsonName : NamespaceKind → String
  | .package => "Package"
  | .packageInternal => "PackageInternal"
  | .protected => "Protected"
  | .private => "Private"
  | .explicit => "Explicit"
  | .staticProtected => "StaticProtected"
  | .plain => "Namespace"

/-- Reads a kind. -/
def read : Reader NamespaceKind := readName names

end NamespaceKind

/-- A namespace as JSON. -/
def Namespace.toJson (n : Namespace) : Json :=
  ofMembers [("kind", text n.kind.jsonName), ("name", text n.name)]

/-- Reads a namespace. -/
def Namespace.read : Reader Namespace :=
  record ["kind", "name"] fun depth fields => do
    let kind ← defaulted "kind" NamespaceKind.package NamespaceKind.read depth fields
    let name ← defaulted "name" "" readText depth fields
    return ⟨kind, name⟩

/-- A qualified name as JSON. -/
def QualifiedName.toJson (q : QualifiedName) : Json :=
  ofMembers [("namespace", q.namespace.toJson), ("name", text q.name)]

/-- Reads a qualified name. -/
def QualifiedName.read : Reader QualifiedName :=
  record ["namespace", "name"] fun depth fields => do
    let «namespace» ← defaulted "namespace" Namespace.topLevel Namespace.read depth fields
    let name ← required "name" readText depth fields
    return ⟨«namespace», name⟩

/-! ### Types -/

namespace StaticType

/-- A type as JSON. -/
def toJson : StaticType → Json
  | .boolean => Json.text "Boolean"
  | .int => Json.text "Int"
  | .uint => Json.text "UInt"
  | .number => Json.text "Number"
  | .string => Json.text "String"
  | .object => Json.text "Object"
  | .any => Json.text "Unbounded"
  | .class q => ofMembers [("Class", q.toJson)]

/-- Reads a type.  A class is taken as it is named, also where its name is that of a primitive. -/
def read : Reader StaticType :=
  variant fun depth name j =>
    match name with
    | "Boolean" => bare .boolean j
    | "Int" => bare .int j
    | "UInt" => bare .uint j
    | "Number" => bare .number j
    | "String" => bare .string j
    | "Object" => bare .object j
    | "Unbounded" => bare .any j
    | "Class" => data (fun j => (QualifiedName.read depth j).map .class) j
    | _ => none

end StaticType

/-! ### Operators -/

namespace BinaryOperator

/-- The name of an operator. -/
def jsonName : BinaryOperator → String
  | .add => "Add"
  | .subtract => "Subtract"
  | .multiply => "Multiply"
  | .divide => "Divide"
  | .modulo => "Modulo"
  | .bitAnd => "BitAnd"
  | .bitOr => "BitOr"
  | .bitXor => "BitXor"
  | .leftShift => "LeftShift"
  | .rightShift => "RightShift"
  | .unsignedRightShift => "UnsignedRightShift"
  | .equals => "Equals"
  | .notEquals => "NotEquals"
  | .strictEquals => "StrictEquals"
  | .strictNotEquals => "StrictNotEquals"
  | .lessThan => "LessThan"
  | .lessEquals => "LessEquals"
  | .greaterThan => "GreaterThan"
  | .greaterEquals => "GreaterEquals"
  | .logicalAnd => "LogicalAnd"
  | .logicalOr => "LogicalOr"
  | .in => "In"
  | .instanceOf => "InstanceOf"
  | .is => "Is"
  | .as => "As"

/-- Reads an operator. -/
def read : Reader BinaryOperator := readName (all.map fun op => (op.jsonName, op))

end BinaryOperator

namespace UnaryOperator

/-- The name of an operator. -/
def jsonName : UnaryOperator → String
  | .not => "Not"
  | .negate => "Negate"
  | .bitNot => "BitNot"
  | .typeOf => "TypeOf"
  | .void => "Void"

/-- Reads an operator. -/
def read : Reader UnaryOperator := readName (all.map fun op => (op.jsonName, op))

end UnaryOperator

/-! ### Origins -/

/-- An origin as JSON. -/
def Origin.toJson (o : Origin) : Json :=
  ofMembers [
    ("instruction", ofOption (fun i => ofNat i.toNat) o.instruction),
    ("line_start", ofOption (fun i => ofNat i.toNat) o.lineStart)]

/-- Reads an origin. -/
def Origin.read : Reader Origin :=
  record ["instruction", "line_start"] fun depth fields => do
    let instruction ← optional "instruction" readUInt64 depth fields
    let lineStart ← optional "line_start" readUInt64 depth fields
    return ⟨instruction, lineStart⟩

end ActionTree
