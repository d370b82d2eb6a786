import ActionTree.Name

/-!
# Static types

* `StaticType` - the primitive types, the untyped `*` and named classes;
* `StaticType.ofName` - the type of a name, where top-level primitive names are the primitives;
* `StaticType.text` - the name a type is written with;
* `StaticType.needsCast` - whether a conversion between two types has to be written.
-/

namespace ActionTree

/-- A static type. -/
inductive StaticType where
  | boolean
  | int
  | uint
  | number
  | string
  | object
  | any
  | «class» (name : QualifiedName)
  deriving DecidableEq, Inhabited

namespace StaticType

/-- The type of a qualified name.  A primitive has one representation: its top-level name is never a
class. -/
def ofName (q : QualifiedName) : StaticType :=
  if q.namespace.isTopLevel then
    match q.name with
    | "Boolean" => .boolean
    | "int" => .int
    | "uint" => .uint
    | "Number" => .number
    | "String" => .string
    | "Object" => .object
    | "*" => .any
    | _ => .class q
  else .class q

/-- The type of a top-level name. -/
def named (name : String) : StaticType := ofName (.ofName name)

/-- The name that a type is written with; a class is written without its package. -/
def text : StaticType → String
  | .boolean => "Boolean"
  | .int => "int"
  | .uint => "uint"
  | .number => "Number"
  | .string => "String"
  | .object => "Object"
  | .any => "*"
  | .class q => q.name

/-- Tells the three number types. -/
def isNumeric : StaticType → Bool
  | .int | .uint | .number => true
  | _ => false

/-- Whether converting an operand to a target type has to be written as a cast.  Untyped operands
are accepted wherever a primitive is expected; objects and classes always need the cast. -/
def needsCast (target operand : StaticType) : Bool :=
  match target with
  | .boolean => !(operand == .boolean || operand == .any)
  | .int | .uint | .number => !(operand.isNumeric || operand == .any)
  | .string => !(operand == .string || operand == .any)
  | _ => true

end StaticType

end ActionTree
