import ActionTree.Locals
import ActionTree.Node.Attributes
import ActionTree.Writer.Basic

/-!
# How a tree is written

Rendering a tree is a list of steps, which a writer performs.  An operand is put in parentheses when
it binds looser than its context.

* `isIdentifier` - whether a name can follow a dot;
* `Kind.steps` - the steps of a kind from those of its parts;
* `Node.steps` - the steps of a tree;
* `Node.source` - its text.
-/

namespace ActionTree

/-! ### Names -/

/-- Letters, the underscore and the dollar sign. -/
def isIdentifierStart (c : Char) : Bool := c.isAlpha || c == '_' || c == '$'

/-- Whether a name can follow a dot: ASCII letters, digits, `_` and `$`, no digit first. -/
def isIdentifier (name : String) : Bool :=
  match name.toList with
  | [] => false
  | c :: cs => isIdentifierStart c && cs.all fun c => isIdentifierStart c || c.isDigit

/-- Whether an object is written as the bare word `this`. -/
def Node.rendersAsThis (locals : Locals) : Node → Bool
  | ⟨.this, _⟩ => true
  | ⟨.register i _, _⟩ => locals.name i == "this"
  | ⟨.duplicate v, _⟩ => v.rendersAsThis locals
  | ⟨.coerce _ v, _⟩ => v.rendersAsThis locals
  | ⟨.convert t v, _⟩ => !showsConversion t v && v.rendersAsThis locals
  | _ => false

/-- Whether the text of a node starts with a minus, seen through copies and conversions. -/
def Node.startsWithMinus (n : Node) : Bool :=
  match n.notCoerced.kind with
  | .literal l => l.isNegative
  | .unary .negate _ => true
  | _ => false

/-! ### Parts in context -/

/-- A part of a kind beside the steps that come after it is entered. -/
abbrev Drawn := Node × List Step

namespace Drawn

/-- A part in a context that asks for no parentheses. -/
def plain (d : Drawn) : List Step := .enter :: d.2

/-- A part in parentheses. -/
def inParentheses (d : Drawn) : List Step := .write "(" :: (d.plain ++ [.write ")"])

/-- An operand: in parentheses when it binds looser than its context. -/
def operand (context : Precedence) (d : Drawn) : List Step :=
  if context < d.1.precedence then d.inParentheses else d.plain

/-- The right operand of a left-associative operator: in parentheses also at the same level. -/
def rightOperand (context : Precedence) (d : Drawn) : List Step :=
  if context ≤ d.1.precedence then d.inParentheses else d.plain

/-- Arguments after the first one. -/
def moreArguments : List Drawn → List Step
  | [] => []
  | d :: ds => .write ", " :: (d.operand .assignment ++ moreArguments ds)

/-- The arguments of a call. -/
def arguments : List Drawn → List Step
  | [] => [.write "(", .write ")"]
  | d :: ds => .write "(" :: (d.operand .assignment ++ moreArguments ds ++ [.write ")"])

end Drawn

/-! ### Properties -/

namespace Property

/-- The member part of an access: `.name`, or brackets around an expression or a quoted name. -/
def memberSteps (p : Property Drawn) : List Step :=
  match p.runtime with
  | some d => .write "[" :: (d.plain ++ [.write "]"])
  | none =>
    if isIdentifier p.name.name then [.write ".", .write p.name.name]
    else [.write "[", .write (Text.quote p.name.name), .write "]"]

/-- Whether a name can stand without a receiver. -/
def hasBareForm {α : Type} (p : Property α) : Bool :=
  p.runtime.isNone && isIdentifier p.name.name

/-- A name without a receiver; one that cannot stand alone is written as a member of `this`. -/
def bareSteps (p : Property Drawn) : List Step :=
  if p.hasBareForm then [.write p.name.name] else .write "this" :: p.memberSteps

/-- A property of an object. -/
def accessSteps (object : Drawn) (p : Property Drawn) : List Step :=
  if object.1.isScopeReceiver then p.bareSteps else object.operand .primary ++ p.memberSteps

/-- A property past the class of an object; the receiver is written unless it is implied. -/
def superSteps (locals : Locals) (object : Drawn) (p : Property Drawn) : List Step :=
  let receiver :=
    if object.1.rendersAsThis locals || object.1.isScopeReceiver then []
    else object.operand .primary ++ [.write "."]
  receiver ++ .write "super" :: p.memberSteps

end Property

/-! ### Kinds and trees -/

/-- The target of an assignment. -/
def Target.steps (locals : Locals) : Target Drawn → List Step
  | .register i => [.write (locals.name i)]
  | .property .direct object p => p.accessSteps object
  | .property .super object p => p.superSteps locals object

/-- The rest of an assignment: the compound form if there is one, else the stored value. -/
def assignedSteps (value : Drawn) : Option (Compound Drawn) → List Step
  | some c =>
    [.write " ", .write c.operator.symbol, .write "= "] ++ c.value.operand .assignment
  | none => .write " = " :: value.operand .assignment

/-- The steps of a kind after it is entered. -/
def Kind.steps (locals : Locals) : Kind Drawn → List Step
  | .literal l => [.write l.text]
  | .this => [.write "this"]
  | .register i _ => [.write (locals.name i)]
  | .scope p => p.bareSteps
  | .duplicate v => v.plain
  | .convert t v =>
    if v.1.showsConversion t then .write t.text :: v.inParentheses else v.plain
  | .coerce _ v => v.plain
  | .get object p _ => p.accessSteps object
  | .getSuper object p => p.superSteps locals object
  | .call .direct object p as => p.accessSteps object ++ Drawn.arguments as
  | .call .super object p as => p.superSteps locals object ++ Drawn.arguments as
  | .construct _ as => .write "super" :: Drawn.arguments as
  | .assign target v c _ => target.steps locals ++ assignedSteps v c
  | .binary op l r =>
    l.operand op.precedence ++ [.write " ", .write op.symbol, .write " "]
      ++ r.rightOperand op.precedence
  | .unary op v =>
    -- a minus in front of a minus would read as a decrement
    if op = .negate ∧ v.1.startsWithMinus then .write op.symbol :: v.inParentheses
    else .write op.symbol :: v.operand .unary
  | .ternary c a b =>
    c.operand .logicalOr ++ .write " ? " :: a.operand .assignment
      ++ .write " : " :: b.operand .assignment
  | .declare i t v =>
    [.write "var ", .write (locals.name i), .write ":", .write t.text] ++ match v with
      | some d => .write " = " :: d.operand .assignment
      | none => []
  | .returnValue v => .write "return " :: v.plain
  | .returnVoid => [.write "return"]
  | .throw v => .write "throw " :: v.plain

namespace Node

/-- The steps of a tree after it is entered. -/
def bodySteps (locals : Locals) : Node → List Step :=
  recurse fun kind _ => kind.steps locals

/-- A tree beside its steps. -/
def drawn (locals : Locals) (n : Node) : Drawn := (n, n.bodySteps locals)

theorem bodySteps_mk (locals : Locals) (k : Kind Node) (o : Origin) :
    bodySteps locals ⟨k, o⟩ = (k.map (drawn locals)).steps locals :=
  recurse_mk _ k o

/-- The steps of a tree where no parentheses are asked for. -/
def steps (locals : Locals) (n : Node) : List Step := (n.drawn locals).plain

/-- The text of a tree. -/
def source (locals : Locals) (n : Node) : String := (Writer.run (n.steps locals) .fresh).2.text

end Node

end ActionTree
