/-!
# Operators and precedence

* `Precedence` - binding levels, the lower the tighter;
* `BinaryOperator`, `UnaryOperator` - the operators with their symbols and levels.
-/

namespace ActionTree

/-- A binding level.  An operand is put in parentheses when its level is above that of its
context. -/
abbrev Precedence := Nat

namespace Precedence

/-- Names, literals, calls and member accesses. -/
def primary : Precedence := 0
/-- Operators before their operand, and negative literals. -/
def unary : Precedence := 1
/-- Products. -/
def multiplicative : Precedence := 2
/-- Sums. -/
def additive : Precedence := 3
/-- Shifts. -/
def shift : Precedence := 4
/-- Order comparisons and type tests. -/
def relational : Precedence := 5
/-- Equality tests. -/
def equality : Precedence := 6
/-- Bitwise and. -/
def bitwiseAnd : Precedence := 7
/-- Bitwise exclusive or. -/
def bitwiseXor : Precedence := 8
/-- Bitwise or. -/
def bitwiseOr : Precedence := 9
/-- Logical and. -/
def logicalAnd : Precedence := 10
/-- Logical or. -/
def logicalOr : Precedence := 11
/-- Conditional expressions. -/
def conditional : Precedence := 12
/-- Assignments and declarations. -/
def assignment : Precedence := 13
/-- Statements, which stand in no expression. -/
def statement : Precedence := 14

end Precedence

/-- The binary operators. -/
inductive BinaryOperator where
  | add | subtract | multiply | divide | modulo
  | bitAnd | bitOr | bitXor | leftShift | rightShift | unsignedRightShift
  | equals | notEquals | strictEquals | strictNotEquals
  | lessThan | lessEquals | greaterThan | greaterEquals
  | logicalAnd | logicalOr
  | «in» | instanceOf | is | as
  deriving DecidableEq, Inhabited

namespace BinaryOperator

/-- All binary operators. -/
def all : List BinaryOperator := [
  .add, .subtract, .multiply, .divide, .modulo,
  .bitAnd, .bitOr, .bitXor, .leftShift, .rightShift, .unsignedRightShift,
  .equals, .notEquals, .strictEquals, .strictNotEquals,
  .lessThan, .lessEquals, .greaterThan, .greaterEquals,
  .logicalAnd, .logicalOr, .in, .instanceOf, .is, .as]

/-- The written form of an operator. -/
def symbol : BinaryOperator → String
  | .add => "+"
  | .subtract => "-"
  | .multiply => "*"
  | .divide => "/"
  | .modulo => "%"
  | .bitAnd => "&"
  | .bitOr => "|"
  | .bitXor => "^"
  | .leftShift => "<<"
  | .rightShift => ">>"
  | .unsignedRightShift => ">>>"
  | .equals => "=="
  | .notEquals => "!="
  | .strictEquals => "==="
  | .strictNotEquals => "!=="
  | .lessThan => "<"
  | .lessEquals => "<="
  | .greaterThan => ">"
  | .greaterEquals => ">="
  | .logicalAnd => "&&"
  | .logicalOr => "||"
  | .in => "in"
  | .instanceOf => "instanceof"
  | .is => "is"
  | .as => "as"

/-- The binding level of an operator. -/
def precedence : BinaryOperator → Precedence
  | .multiply | .divide | .modulo => .multiplicative
  | .add | .subtract => .additive
  | .leftShift | .rightShift | .unsignedRightShift => .shift
  | .lessThan | .lessEquals | .greaterThan | .greaterEquals => .relational
  | .in | .instanceOf | .is | .as => .relational
  | .equals | .notEquals | .strictEquals | .strictNotEquals => .equality
  | .bitAnd => .bitwiseAnd
  | .bitXor => .bitwiseXor
  | .bitOr => .bitwiseOr
  | .logicalAnd => .logicalAnd
  | .logicalOr => .logicalOr

/-- Tells the operators whose outcome depends on types that only a running program has. -/
def isTypeOperator : BinaryOperator → Bool
  | .in | .instanceOf | .is | .as => true
  | _ => false

end BinaryOperator

/-- The unary operators. -/
inductive UnaryOperator where
  | not | negate | bitNot | typeOf | void
  deriving DecidableEq, Inhabited

namespace UnaryOperator

/-- All unary operators. -/
def all : List UnaryOperator := [.not, .negate, .bitNot, .typeOf, .void]

/-- The written form of an operator, with the blank that a word needs after it. -/
def symbol : UnaryOperator → String
  | .not => "!"
  | .negate => "-"
  | .bitNot => "~"
  | .typeOf => "typeof "
  | .void => "void "

end UnaryOperator

end ActionTree
