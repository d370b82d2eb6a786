import ActionTree.Node.Attributes

/-!
# The value of a tree without running it

* `Node.result` - the value of a tree, `unknown` where it needs a running program;
* `Node.isConstant` - whether the value of a tree is known;
* `Visited` - the nodes that a check has entered, by their paths from the root;
* `Node.isCompileTime` - the same check for callers that share such a set: it enters no node twice.
-/

namespace ActionTree

/-! ### Evaluation -/

/-- The value of a choice: nothing is known behind an unknown condition. -/
def Value.choose (condition onTrue onFalse : Value) : Value :=
  if !condition.isKnown then .unknown
  else if condition.toBoolean then onTrue
  else onFalse

/-- The value of a tree.  A choice has the value of the branch that its condition takes. -/
def Node.result : Node → Value
  | ⟨.literal l, _⟩ => l.value
  | ⟨.duplicate v, _⟩ => v.result
  | ⟨.convert t v, _⟩ => v.result.convert t
  | ⟨.coerce t v, _⟩ => v.result.coerce t
  | ⟨.binary op l r, _⟩ => op.apply l.result r.result
  | ⟨.unary op v, _⟩ => op.apply v.result
  | ⟨.ternary c a b, _⟩ => Value.choose c.result a.result b.result
  | _ => .unknown

/-! ### Constant trees -/

/-- Whether the value of a tree is known.  Of a choice only the branch that its condition takes
counts, and type operators are never known. -/
def Node.isConstant : Node → Bool
  | ⟨.literal _, _⟩ => true
  | ⟨.duplicate v, _⟩ => v.isConstant
  | ⟨.convert _ v, _⟩ => v.isConstant
  | ⟨.coerce _ v, _⟩ => v.isConstant
  | ⟨.unary _ v, _⟩ => v.isConstant
  | ⟨.binary op l r, _⟩ => !op.isTypeOperator && l.isConstant && r.isConstant
  | ⟨.ternary c a b, _⟩ =>
    c.isConstant && c.result.isKnown
      && if c.result.toBoolean then a.isConstant else b.isConstant
  | _ => false

/-! ### The check with a set of entered nodes -/

/-- A path from the root of a tree: indexes into `Node.children`, the last one first. -/
abbrev Path := List Nat

/-- The nodes that were entered, each once. -/
structure Visited where
  paths : List Path
  deriving DecidableEq

namespace Visited

/-- Nothing was entered. -/
def empty : Visited := ⟨[]⟩

/-- Whether the node at a path was entered. -/
def contains (v : Visited) (p : Path) : Bool := v.paths.contains p

/-- Enters the node at a path. -/
def insert (v : Visited) (p : Path) : Visited :=
  if v.contains p then v else ⟨p :: v.paths⟩

/-- The number of nodes that were entered. -/
def size (v : Visited) : Nat := v.paths.length

/-- Enters the node at a path and checks it; a node that was entered before fails. -/
def enter (p : Path) (check : Visited → Bool × Visited) (v : Visited) : Bool × Visited :=
  if v.contains p then (false, v) else check (v.insert p)

end Visited

/-- Whether the value of the node at path `p` is known, with the nodes entered on the way.  A node
met a second time counts as not known. -/
def Node.isCompileTime : Node → Path → Visited → Bool × Visited
  | ⟨.literal _, _⟩, _, seen => (true, seen)
  | ⟨.duplicate v, _⟩, p, seen => Visited.enter (0 :: p) (v.isCompileTime (0 :: p)) seen
  | ⟨.convert _ v, _⟩, p, seen => Visited.enter (0 :: p) (v.isCompileTime (0 :: p)) seen
  | ⟨.coerce _ v, _⟩, p, seen => Visited.enter (0 :: p) (v.isCompileTime (0 :: p)) seen
  | ⟨.unary _ v, _⟩, p, seen => Visited.enter (0 :: p) (v.isCompileTime (0 :: p)) seen
  | ⟨.binary op l r, _⟩, p, seen =>
    if op.isTypeOperator then (false, seen)
    else match Visited.enter (0 :: p) (l.isCompileTime (0 :: p)) seen with
      | (true, seen) => Visited.enter (1 :: p) (r.isCompileTime (1 :: p)) seen
      | (false, seen) => (false, seen)
  | ⟨.ternary c a b, _⟩, p, seen =>
    match Visited.enter (0 :: p) (c.isCompileTime (0 :: p)) seen with
    | (true, seen) =>
      if !c.result.isKnown then (false, seen)
      else if c.result.toBoolean then Visited.enter (1 :: p) (a.isCompileTime (1 :: p)) seen
      else Visited.enter (2 :: p) (b.isCompileTime (2 :: p)) seen
    | (false, seen) => (false, seen)
  | _, _, seen => (false, seen)

end ActionTree
