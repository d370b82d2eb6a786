import ActionTree.Node.Assignment

/-!
# Building trees

One constructor function per variant of node, for nodes that no instruction produced.  Types that
are not known are `*`, and assignments are plain and unlinked.
-/

namespace ActionTree.Node

/-- A literal. -/
def literal (l : Literal) : Node := synthetic (.literal l)

/-- The receiver. -/
def this : Node := synthetic .this

/-- The read of a register. -/
def register (index : UInt32) (type : StaticType := .any) : Node := synthetic (.register index type)

/-- The lookup of a name in the scope chain. -/
def scope (p : Property Node) : Node := synthetic (.scope p)

/-- A copy of a value. -/
def duplicate (v : Node) : Node := synthetic (.duplicate v)

/-- An explicit conversion. -/
def convert (v : Node) (type : StaticType) : Node := synthetic (.convert type v)

/-- An implicit conversion. -/
def coerce (v : Node) (type : StaticType) : Node := synthetic (.coerce type v)

/-- The read of a property. -/
def get (object : Node) (p : Property Node) : Node := synthetic (.get object p .any)

/-- The read of a property past the class. -/
def getSuper (object : Node) (p : Property Node) : Node := synthetic (.getSuper object p)

/-- A plain assignment. -/
def assign (target : Target Node) (value : Node) : Node :=
  synthetic (.assign target value none none)

/-- The call of a property. -/
def call (lookup : Lookup) (object : Node) (p : Property Node) (arguments : List Node) : Node :=
  synthetic (.call lookup object p arguments)

/-- The call of the constructor of the superclass. -/
def construct (object : Node) (arguments : List Node) : Node :=
  synthetic (.construct object arguments)

/-- A binary operation. -/
def binary (op : BinaryOperator) (l r : Node) : Node := synthetic (.binary op l r)

/-- A unary operation. -/
def unary (op : UnaryOperator) (v : Node) : Node := synthetic (.unary op v)

/-- A choice. -/
def ternary (c a b : Node) : Node := synthetic (.ternary c a b)

/-- A declaration. -/
def declare (index : UInt32) (type : StaticType) (value : Option Node) : Node :=
  synthetic (.declare index type value)

/-- A return with a value. -/
def returnValue (v : Node) : Node := synthetic (.returnValue v)

/-- A return without a value. -/
def returnVoid : Node := synthetic .returnVoid

/-- A throw. -/
def throw (v : Node) : Node := synthetic (.throw v)

end ActionTree.Node
