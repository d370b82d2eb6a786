import ActionTree.Node.Basic

/-!
# What a node is from outside

* `Node.precedence` - the level at which it binds as an operand;
* `Node.returnType` - the static type of its value;
* `Node.hasSideEffect` - whether evaluating it can change the program's state;
* `Node.throughDuplicate`, `Node.notCoerced` - the node under copies and conversions;
* `Node.showsConversion` - whether a conversion is written.
-/

namespace ActionTree.Node

/-- The binding level.  Copies and conversions bind like their operand. -/
def precedence : Node → Precedence
  | ⟨.literal l, _⟩ => l.precedence
  | ⟨.duplicate v, _⟩ => v.precedence
  | ⟨.convert _ v, _⟩ => v.precedence
  | ⟨.coerce _ v, _⟩ => v.precedence
  | ⟨.binary op _ _, _⟩ => op.precedence
  | ⟨.unary .., _⟩ => .unary
  | ⟨.ternary .., _⟩ => .conditional
  | ⟨.assign .., _⟩ => .assignment
  | ⟨.declare .., _⟩ => .assignment
  | ⟨.returnValue _, _⟩ => .statement
  | ⟨.returnVoid, _⟩ => .statement
  | ⟨.throw _, _⟩ => .statement
  | _ => .primary

/-- The type of a binary operation on operands of known types.  A sum is a string as soon as one
operand is; a logical operation has a type only where both operands agree. -/
def binaryType (op : BinaryOperator) (left right : StaticType) : StaticType :=
  match op with
  | .add =>
    if left = .string ∨ right = .string then .string
    else if left.isNumeric && right.isNumeric then .number
    else .any
  | .subtract | .multiply | .divide | .modulo => .number
  | .bitAnd | .bitOr | .bitXor | .leftShift | .rightShift => .int
  | .unsignedRightShift => .uint
  | .equals | .notEquals | .strictEquals | .strictNotEquals => .boolean
  | .lessThan | .lessEquals | .greaterThan | .greaterEquals => .boolean
  | .in | .instanceOf | .is => .boolean
  | .logicalAnd | .logicalOr => if left = right then left else .any
  | .as => .any

/-- The type of a unary operation. -/
def unaryType : UnaryOperator → StaticType
  | .not => .boolean
  | .negate => .number
  | .bitNot => .int
  | .typeOf => .string
  | .void => .any

/-- The static type of the value; an assignment has the type of what it stores. -/
def returnType : Node → StaticType
  | ⟨.literal l, _⟩ => l.type
  | ⟨.register _ t, _⟩ => t
  | ⟨.duplicate v, _⟩ => v.returnType
  | ⟨.convert t _, _⟩ => t
  | ⟨.coerce t _, _⟩ => t
  | ⟨.get _ _ t, _⟩ => t
  | ⟨.assign _ v _ _, _⟩ => v.returnType
  | ⟨.binary op l r, _⟩ => binaryType op l.returnType r.returnType
  | ⟨.unary op _, _⟩ => unaryType op
  | ⟨.ternary _ a b, _⟩ => if a.returnType = b.returnType then a.returnType else .any
  | ⟨.declare _ t _, _⟩ => t
  | ⟨.returnValue v, _⟩ => v.returnType
  | _ => .any

/-- Whether evaluating the node can change the program's state: it is an effect, or a child has
one. -/
def hasSideEffect : Node → Bool :=
  recurse fun kind _ => kind.isEffect || kind.children.any (·.2)

/-- The node without one copy. -/
def throughDuplicate : Node → Node
  | ⟨.duplicate v, _⟩ => v
  | n => n

/-- The node under all copies and conversions. -/
def notCoerced : Node → Node
  | ⟨.duplicate v, _⟩ => v.notCoerced
  | ⟨.convert _ v, _⟩ => v.notCoerced
  | ⟨.coerce _ v, _⟩ => v.notCoerced
  | n => n

/-- Whether converting this node to a type is written as a cast. -/
def showsConversion (target : StaticType) (operand : Node) : Bool :=
  target.needsCast operand.returnType

/-- Whether an access on this object is written without it: the object only looks a name up in the
scope chain, perhaps through one copy. -/
def isScopeReceiver (object : Node) : Bool :=
  match object.throughDuplicate.kind with
  | .scope _ => true
  | _ => false

theorem hasSideEffect_mk (k : Kind Node) (o : Origin) :
    hasSideEffect ⟨k, o⟩ = (k.isEffect || k.children.any hasSideEffect) := by
  rw [hasSideEffect, recurse_mk]
  simp only [Kind.isEffect_map, Kind.children_map, List.any_map]
  rfl

end ActionTree.Node
