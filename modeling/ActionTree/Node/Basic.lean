import ActionTree.Node.Kind

/-!
# Expression and statement trees

* `Origin` - the instructions that a node comes from;
* `Node` - a kind over nodes, with an origin;
* `Node.recurse` - recursion from the leaves up: each node sees its parts beside their results.
-/

namespace ActionTree

/-- Where a node comes from: its instruction, and the first instruction of its source line.  Nodes
that no instruction produced have neither. -/
structure Origin where
  instruction : Option UInt64
  lineStart : Option UInt64
  deriving DecidableEq, Inhabited

namespace Origin

/-- The origin of a node that no instruction produced. -/
def synthetic : Origin := ⟨none, none⟩

/-- The origin of an instruction that starts its line. -/
def ofInstruction (instruction : UInt64) : Origin := ⟨some instruction, some instruction⟩

/-- Whether no instruction produced the node. -/
def isSynthetic (o : Origin) : Bool := o.instruction.isNone

end Origin

/-- A tree of expressions and statements. -/
structure Node where
  kind : Kind Node
  origin : Origin

namespace Node

/-- A node that no instruction produced. -/
def synthetic (kind : Kind Node) : Node := ⟨kind, .synthetic⟩

/-- The node with another origin. -/
def withOrigin (n : Node) (origin : Origin) : Node := ⟨n.kind, origin⟩

/-- The parts that are evaluated, in order. -/
def children (n : Node) : List Node := n.kind.children

/-- The name of the kind of a node. -/
def kindName (n : Node) : String := n.kind.name

/-- Whether a node leaves a value that an expression can use. -/
def hasReturnValue (n : Node) : Bool := n.kind.hasReturnValue

/-- Whether a node is a literal. -/
def isLiteral (n : Node) : Bool := n.kind.isLiteral

/-! ### Recursion from the leaves up -/

mutual

/-- The result of a node, made by `step` from its kind, where each part stands beside its own
result, and from its origin. -/
def recurse {β : Type} (step : Kind (Node × β) → Origin → β) : Node → β
  | ⟨kind, origin⟩ => step (recurseKind step kind) origin

/-- A kind with each part beside its result. -/
def recurseKind {β : Type} (step : Kind (Node × β) → Origin → β) : Kind Node → Kind (Node × β)
  | .literal l => .literal l
  | .this => .this
  | .register i t => .register i t
  | .scope p => .scope (recurseProperty step p)
  | .duplicate v => .duplicate (v, recurse step v)
  | .convert t v => .convert t (v, recurse step v)
  | .coerce t v => .coerce t (v, recurse step v)
  | .get object p t => .get (object, recurse step object) (recurseProperty step p) t
  | .getSuper object p => .getSuper (object, recurse step object) (recurseProperty step p)
  | .call lookup object p arguments =>
    .call lookup (object, recurse step object) (recurseProperty step p) (recurseList step arguments)
  | .construct object arguments =>
    .construct (object, recurse step object) (recurseList step arguments)
  | .assign target v c d =>
    .assign (recurseTarget step target) (v, recurse step v) (recurseCompound step c) d
  | .binary op l r => .binary op (l, recurse step l) (r, recurse step r)
  | .unary op v => .unary op (v, recurse step v)
  | .ternary c a b => .ternary (c, recurse step c) (a, recurse step a) (b, recurse step b)
  | .declare i t v => .declare i t (recurseOption step v)
  | .returnValue v => .returnValue (v, recurse step v)
  | .returnVoid => .returnVoid
  | .throw v => .throw (v, recurse step v)

/-- A property name with its expression beside the result. -/
def recurseProperty {β : Type} (step : Kind (Node × β) → Origin → β) :
    Property Node → Property (Node × β)
  | ⟨name, runtime⟩ => ⟨name, recurseOption step runtime⟩

/-- An assignment target with its expressions beside their results. -/
def recurseTarget {β : Type} (step : Kind (Node × β) → Origin → β) :
    Target Node → Target (Node × β)
  | .register i => .register i
  | .property lookup object p =>
    .property lookup (object, recurse step object) (recurseProperty step p)

/-- A compound form with its value beside the result. -/
def recurseCompound {β : Type} (step : Kind (Node × β) → Origin → β) :
    Option (Compound Node) → Option (Compound (Node × β))
  | none => none
  | some ⟨op, v⟩ => some ⟨op, (v, recurse step v)⟩

/-- An optional node beside its result. -/
def recurseOption {β : Type} (step : Kind (Node × β) → Origin → β) :
    Option Node → Option (Node × β)
  | none => none
  | some v => some (v, recurse step v)

/-- Nodes beside their results. -/
def recurseList {β : Type} (step : Kind (Node × β) → Origin → β) :
    List Node → List (Node × β)
  | [] => []
  | v :: vs => (v, recurse step v) :: recurseList step vs

end

variable {β : Type} (step : Kind (Node × β) → Origin → β)

theorem recurseOption_eq_map (v : Option Node) :
    recurseOption step v = v.map fun n => (n, n.recurse step) := by
  cases v <;> rfl

theorem recurseList_eq_map (vs : List Node) :
    recurseList step vs = vs.map fun n => (n, n.recurse step) := by
  induction vs with
  | nil => rfl
  | cons v vs ih => simp only [recurseList, List.map_cons, ih]

theorem recurseProperty_eq_map (p : Property Node) :
    recurseProperty step p = p.map fun n => (n, n.recurse step) := by
  cases p
  simp only [recurseProperty, Property.map, recurseOption_eq_map]

theorem recurseTarget_eq_map (t : Target Node) :
    recurseTarget step t = t.map fun n => (n, n.recurse step) := by
  cases t
  · rfl
  · simp only [recurseTarget, Target.map, recurseProperty_eq_map]

theorem recurseCompound_eq_map (c : Option (Compound Node)) :
    recurseCompound step c = c.map (·.map fun n => (n, n.recurse step)) := by
  cases c <;> rfl

/-- Each part of a kind gets its own result. -/
theorem recurseKind_eq_map (k : Kind Node) :
    recurseKind step k = k.map fun n => (n, n.recurse step) := by
  cases k <;> simp only [recurseKind, Kind.map, recurseOption_eq_map, recurseList_eq_map,
    recurseProperty_eq_map, recurseTarget_eq_map, recurseCompound_eq_map]

/-- The equation of the recursion. -/
theorem recurse_mk (k : Kind Node) (o : Origin) :
    recurse step ⟨k, o⟩ = step (k.map fun n => (n, n.recurse step)) o := by
  rw [recurse, recurseKind_eq_map]

end Node

end ActionTree
