import ActionTree.Node.Literal

/-!
# Kinds of node

A kind says what an expression or statement is, over parts of any type `α`.  Trees are kinds whose
parts are trees again.

* `Property`, `Target`, `Compound` - the names, assignment targets and compound forms in a kind;
* `Kind` - the kinds;
* `Kind.children` - the parts that are evaluated, in order;
* `Kind.parts` - the children, then the compound value, which is shown but not evaluated;
* `Kind.map` - a kind with other parts.
-/

namespace ActionTree

/-- The name of a property.  A name computed at runtime has an expression. -/
structure Property (α : Type) where
  name : QualifiedName
  runtime : Option α

/-- Whether a property is looked up on an object or past its class. -/
inductive Lookup where
  | direct
  | super
  deriving DecidableEq, Inhabited

/-- What an assignment writes. -/
inductive Target (α : Type) where
  | register (index : UInt32)
  | property (lookup : Lookup) (object : α) (property : Property α)

/-- The right side of `target op= value`. -/
structure Compound (α : Type) where
  operator : BinaryOperator
  value : α

/-- What a node is. -/
inductive Kind (α : Type) where
  | literal (value : Literal)
  | this
  /-- A local register that is read. -/
  | register (index : UInt32) (type : StaticType)
  /-- The object of the scope chain that has a property. -/
  | scope (property : Property α)
  /-- A copy on the operand stack. -/
  | duplicate (value : α)
  /-- An explicit conversion. -/
  | convert (type : StaticType) (value : α)
  /-- An implicit conversion. -/
  | coerce (type : StaticType) (value : α)
  | get (object : α) (property : Property α) (type : StaticType)
  | getSuper (object : α) (property : Property α)
  | call (lookup : Lookup) (object : α) (property : Property α) (arguments : List α)
  /-- The call of the constructor of the superclass. -/
  | construct (object : α) (arguments : List α)
  /-- An assignment, linked to a declaration when one introduces the target. -/
  | assign (target : Target α) (value : α) (compound : Option (Compound α))
      (declaration : Option UInt64)
  | binary (operator : BinaryOperator) (left right : α)
  | unary (operator : UnaryOperator) (value : α)
  | ternary (condition onTrue onFalse : α)
  /-- A variable declaration. -/
  | declare (index : UInt32) (type : StaticType) (value : Option α)
  | returnValue (value : α)
  | returnVoid
  | throw (value : α)

variable {α β : Type}

/-! ### Properties, targets and compound forms -/

namespace Property

/-- A name known beforehand. -/
def static (name : QualifiedName) : Property α := ⟨name, none⟩

/-- A name that an expression computes. -/
def computed (name : α) : Property α := ⟨.ofName "", some name⟩

/-- The expression in a name. -/
def children (p : Property α) : List α := p.runtime.toList

/-- A name with another expression. -/
def map (f : α → β) (p : Property α) : Property β := ⟨p.name, p.runtime.map f⟩

end Property

namespace Target

/-- The expressions in a target: the object, then its property. -/
def children : Target α → List α
  | .register _ => []
  | .property _ object p => object :: p.children

/-- A target with other expressions. -/
def map (f : α → β) : Target α → Target β
  | .register i => .register i
  | .property lookup object p => .property lookup (f object) (p.map f)

end Target

/-- A compound form with another value. -/
def Compound.map (f : α → β) (c : Compound α) : Compound β := ⟨c.operator, f c.value⟩

namespace Kind

/-! ### Parts -/

/-- The parts that are evaluated, in order. -/
def children : Kind α → List α
  | .literal _ | .this | .register .. | .returnVoid => []
  | .scope p => p.children
  | .duplicate v | .convert _ v | .coerce _ v | .unary _ v | .returnValue v | .throw v => [v]
  | .get object p _ | .getSuper object p => object :: p.children
  | .call _ object p arguments => object :: (p.children ++ arguments)
  | .construct object arguments => object :: arguments
  | .assign target v _ _ => target.children ++ [v]
  | .binary _ l r => [l, r]
  | .ternary c a b => [c, a, b]
  | .declare _ _ v => v.toList

/-- The compound form of an assignment. -/
def compound? : Kind α → Option (Compound α)
  | .assign _ _ compound _ => compound
  | _ => none

/-- All parts: the children, then the compound value. -/
def parts (k : Kind α) : List α := k.children ++ (k.compound?.map (·.value)).toList

/-- A kind with every part replaced. -/
def map (f : α → β) : Kind α → Kind β
  | .literal l => .literal l
  | .this => .this
  | .register i t => .register i t
  | .scope p => .scope (p.map f)
  | .duplicate v => .duplicate (f v)
  | .convert t v => .convert t (f v)
  | .coerce t v => .coerce t (f v)
  | .get object p t => .get (f object) (p.map f) t
  | .getSuper object p => .getSuper (f object) (p.map f)
  | .call lookup object p arguments => .call lookup (f object) (p.map f) (arguments.map f)
  | .construct object arguments => .construct (f object) (arguments.map f)
  | .assign target v c d => .assign (target.map f) (f v) (c.map (·.map f)) d
  | .binary op l r => .binary op (f l) (f r)
  | .unary op v => .unary op (f v)
  | .ternary c a b => .ternary (f c) (f a) (f b)
  | .declare i t v => .declare i t (v.map f)
  | .returnValue v => .returnValue (f v)
  | .returnVoid => .returnVoid
  | .throw v => .throw (f v)

/-! ### Classification -/

/-- The name of a kind. -/
def name : Kind α → String
  | .literal (.int _) => "Integer"
  | .literal (.uint _) => "UInteger"
  | .literal (.number _) => "Number"
  | .literal (.string _) => "String"
  | .literal (.boolean _) => "Boolean"
  | .literal .null => "Null"
  | .literal .undefined => "Undefined"
  | .this => "This"
  | .register .. => "LocalRegister"
  | .scope _ => "FindProperty"
  | .duplicate _ => "Duplicate"
  | .convert .. => "Convert"
  | .coerce .. => "Coerce"
  | .get .. => "GetProperty"
  | .getSuper .. => "GetSuper"
  | .call .direct .. => "CallProperty"
  | .call .super .. => "CallSuper"
  | .construct .. => "ConstructSuper"
  | .assign (.register _) .. => "SetLocal"
  | .assign (.property .direct ..) .. => "SetProperty"
  | .assign (.property .super ..) .. => "SetSuper"
  | .binary .. => "BinaryOp"
  | .unary .. => "UnaryOp"
  | .ternary .. => "Ternary"
  | .declare .. => "Declaration"
  | .returnValue _ => "ReturnValue"
  | .returnVoid => "ReturnVoid"
  | .throw _ => "Throw"

/-- Tells the kinds that change the program's state or its flow by themselves. -/
def isEffect : Kind α → Bool
  | .assign .. | .declare .. | .call .. | .construct .. => true
  | .returnValue _ | .returnVoid | .throw _ => true
  | _ => false

/-- Tells the kinds that leave a value. -/
def hasReturnValue : Kind α → Bool
  | .assign .. | .declare .. | .construct .. => false
  | .returnValue _ | .returnVoid | .throw _ => false
  | _ => true

/-- Tells literals. -/
def isLiteral : Kind α → Bool
  | .literal _ => true
  | _ => false

/-! ### Kinds with other parts -/

/-- Replacing every part by itself changes nothing. -/
theorem map_self (k : Kind α) : (k.map fun a => a) = k := by
  have property (p : Property α) : (p.map fun a => a) = p := by
    cases p with
    | mk name runtime => cases runtime <;> rfl
  have target (t : Target α) : (t.map fun a => a) = t := by
    cases t with
    | register i => rfl
    | property lookup object p => simp only [Target.map, property]
  have compound (c : Option (Compound α)) : (c.map (·.map fun a => a)) = c := by
    cases c <;> rfl
  cases k <;> simp only [map, property, target, compound, List.map_id_fun', id, Option.map_id_fun']

/-- Replacing the parts twice is replacing them once. -/
theorem map_map {γ : Type} (f : α → β) (g : β → γ) (k : Kind α) :
    (k.map f).map g = k.map fun a => g (f a) := by
  have property (p : Property α) : (p.map f).map g = p.map fun a => g (f a) := by
    cases p with
    | mk name runtime => cases runtime <;> rfl
  have target (t : Target α) : (t.map f).map g = t.map fun a => g (f a) := by
    cases t with
    | register i => rfl
    | property lookup object p => simp only [Target.map, property]
  have compound (c : Option (Compound α)) :
      (c.map (·.map f)).map (·.map g) = c.map (·.map fun a => g (f a)) := by
    cases c <;> rfl
  cases k <;> simp only [map, property, target, compound, List.map_map, Option.map_map] <;> rfl

/-- Two replacements that agree on the parts give the same kind. -/
theorem map_congr {f g : α → β} {k : Kind α} (h : ∀ a ∈ k.parts, f a = g a) :
    k.map f = k.map g := by
  have option (v : Option α) (hv : ∀ a ∈ v.toList, f a = g a) : v.map f = v.map g := by
    cases v with
    | none => rfl
    | some a => simp [hv a (by simp)]
  have property (p : Property α) (hp : ∀ a ∈ p.children, f a = g a) : p.map f = p.map g := by
    simp only [Property.map, option p.runtime hp]
  have target (t : Target α) (ht : ∀ a ∈ t.children, f a = g a) : t.map f = t.map g := by
    cases t with
    | register i => rfl
    | property lookup object p =>
      simp only [Target.map, ht object (by simp [Target.children]),
        property p fun a ha => ht a (by simp [Target.children, ha])]
  cases k with
  | scope p => exact congrArg scope (property p fun a ha => h a (by simp [parts, children, ha]))
  | get object p t =>
    simp only [map, h object (by simp [parts, children]),
      property p fun a ha => h a (by simp [parts, children, ha])]
  | getSuper object p =>
    simp only [map, h object (by simp [parts, children]),
      property p fun a ha => h a (by simp [parts, children, ha])]
  | call lookup object p arguments =>
    have list : arguments.map f = arguments.map g :=
      List.map_congr_left fun a ha => h a (by simp [parts, children, ha])
    simp only [map, h object (by simp [parts, children]),
      property p fun a ha => h a (by simp [parts, children, ha]), list]
  | construct object arguments =>
    have list : arguments.map f = arguments.map g :=
      List.map_congr_left fun a ha => h a (by simp [parts, children, ha])
    simp only [map, h object (by simp [parts, children]), list]
  | assign t v c d =>
    have compound : c.map (·.map f) = c.map (·.map g) := by
      cases c with
      | none => rfl
      | some c => simp [Compound.map, h c.value (by simp [parts, compound?])]
    simp only [map, target t fun a ha => h a (by simp [parts, children, ha]),
      h v (by simp [parts, children]), compound]
  | declare i t v =>
    simp only [map, option v fun a ha => h a (by simp [parts, children] at ha ⊢; simp [ha])]
  | _ => simp_all [map, parts, children, compound?]

@[simp] theorem children_map_property (f : α → β) (p : Property α) :
    (p.map f).children = p.children.map f := by
  cases p with
  | mk name runtime => cases runtime <;> rfl

@[simp] theorem children_map_target (f : α → β) (t : Target α) :
    (t.map f).children = t.children.map f := by
  cases t <;> simp [Target.map, Target.children]

/-- The children of a kind with other parts are the other children. -/
@[simp] theorem children_map (f : α → β) (k : Kind α) :
    (k.map f).children = k.children.map f := by
  cases k <;> simp [Kind.map, Kind.children]
  case declare i t v => cases v <;> rfl

@[simp] theorem compound?_map (f : α → β) (k : Kind α) :
    (k.map f).compound? = k.compound?.map (·.map f) := by
  cases k <;> rfl

@[simp] theorem isEffect_map (f : α → β) (k : Kind α) : (k.map f).isEffect = k.isEffect := by
  cases k <;> rfl

@[simp] theorem hasReturnValue_map (f : α → β) (k : Kind α) :
    (k.map f).hasReturnValue = k.hasReturnValue := by
  cases k <;> rfl

@[simp] theorem isLiteral_map (f : α → β) (k : Kind α) : (k.map f).isLiteral = k.isLiteral := by
  cases k <;> rfl

end Kind

end ActionTree
