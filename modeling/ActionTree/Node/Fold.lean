import ActionTree.Node.Constant

/-!
# Constant folding

* `Node.literal?` - the literal that stands for a tree, if its value is known and it does nothing;
* `Node.fold` - the tree with every largest such subtree made a literal;
* `Node.foldUnder` - the same while others may cancel the token.
-/

namespace ActionTree.Node

/-- The literal that can stand for a tree.  Literals stand for themselves already, and a tree with a
side effect stays. -/
def literal? (n : Node) : Option Literal :=
  if n.isLiteral || n.hasSideEffect || !n.isConstant then none
  else Literal.ofValue? n.result n.returnType

/-- The tree with its largest constant subtrees made literals, once it is asked for: what stands
below a literal is never looked at. -/
def foldLater : Node → Unit → Node :=
  recurse fun kind origin _ =>
    match literal? ⟨kind.map (·.1), origin⟩ with
    | some l => ⟨.literal l, origin⟩
    | none => ⟨kind.map (·.2 ()), origin⟩

/-- The tree with its largest constant subtrees made literals, from the root down and in compound
values too.  A literal keeps the origin of what it stands for. -/
def fold (n : Node) : Node := n.foldLater ()

/-- Folding makes the root a literal or goes on in all its parts. -/
theorem fold_mk (k : Kind Node) (o : Origin) :
    fold ⟨k, o⟩ = match literal? ⟨k, o⟩ with
      | some l => ⟨.literal l, o⟩
      | none => ⟨k.map fold, o⟩ := by
  rw [fold, foldLater, recurse_mk]
  simp only [Kind.map_map, Kind.map_self]
  rfl

/-! ### Folding under a token -/

/-- The number of nodes that folding looks at, once it is asked for: all but those below a node that
becomes a literal. -/
def foldVisitsLater : Node → Unit → Nat :=
  recurse fun kind origin _ =>
    match literal? ⟨kind.map (·.1), origin⟩ with
    | some _ => 1
    | none => kind.parts.foldl (fun visits part => visits + part.2 ()) 1

/-- The number of nodes that folding looks at. -/
def foldVisits (n : Node) : Nat := n.foldVisitsLater ()

/-- Folding under a token that others may cancel.  The token is checked before each node that is
looked at, and `raised i` is what the check before the `i`-th one finds; there is no result once a
check finds the token cancelled. -/
def foldUnder (raised : Nat → Bool) (n : Node) : Option Node :=
  if (List.range n.foldVisits).any raised then none else some n.fold

end ActionTree.Node
