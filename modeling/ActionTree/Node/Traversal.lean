import ActionTree.Node.Basic

/-!
# Walking a tree

* `Item` - what a walk meets: nodes, the types of conversions and declarations, property names;
* `Kind.items` - the direct items of a kind in the order of evaluation;
* `Node.walk` - everything below a node, each node before what it holds;
* `Item.within` - a walk that is cancelled after a number of nodes.
-/

namespace ActionTree

/-- What a walk meets. -/
inductive Item (α : Type) where
  | node (n : α)
  | type (t : StaticType)
  | name (p : Property α)

/-- The direct items of a kind in the order of evaluation.  A type comes before its operand, and a
name between the object and what follows.  Compound values are no items: the stored value already
contains them. -/
def Kind.items {α : Type} : Kind α → List (Item α)
  | .literal _ | .this | .register .. | .returnVoid => []
  | .scope p => [.name p]
  | .duplicate v | .unary _ v | .returnValue v | .throw v => [.node v]
  | .convert t v | .coerce t v => [.type t, .node v]
  | .get object p _ | .getSuper object p => [.node object, .name p]
  | .call _ object p arguments => .node object :: .name p :: arguments.map .node
  | .construct object arguments => .node object :: arguments.map .node
  | .assign (.register _) v _ _ => [.node v]
  | .assign (.property _ object p) v _ _ => [.node object, .name p, .node v]
  | .binary _ l r => [.node l, .node r]
  | .ternary c a b => [.node c, .node a, .node b]
  | .declare _ t v => .type t :: (v.toList.map .node)

/-- The walk of an item, given the walks of the nodes in it: a name is followed by the node that
computes it. -/
def Item.expand (i : Item (Node × List (Item Node))) : List (Item Node) :=
  match i with
  | .node (n, below) => .node n :: below
  | .type t => [.type t]
  | .name p => .name (p.map (·.1)) :: p.children.flatMap fun (n, below) => .node n :: below

/-- Everything below a node, in order. -/
def Node.walk : Node → List (Item Node) :=
  Node.recurse fun kind _ => kind.items.flatMap Item.expand

theorem Node.walk_mk (k : Kind Node) (o : Origin) :
    Node.walk ⟨k, o⟩ = (k.map fun n => (n, n.walk)).items.flatMap Item.expand :=
  Node.recurse_mk _ k o

/-- A node and everything below it. -/
def Node.fullWalk (n : Node) : List (Item Node) := .node n :: n.walk

/-- The nodes of a walk. -/
def Item.node? {α : Type} : Item α → Option α
  | .node n => some n
  | _ => none

/-- A walk that may enter a limited number of nodes: what it meets, and whether it ended before the
limit cancelled it. -/
def Item.within {α : Type} : Nat → List (Item α) → List (Item α) × Bool
  | _, [] => ([], true)
  | 0, .node _ :: _ => ([], false)
  | limit + 1, .node n :: rest =>
    let (met, completed) := within limit rest
    (.node n :: met, completed)
  | limit, item :: rest =>
    let (met, completed) := within limit rest
    (item :: met, completed)

end ActionTree
