import ActionTree.Proofs.Tree.Reach

/-!
# The nodes of a tree in order

* `Node.preorder` - a node, then the nodes below it by children, one child after another;
* `Node.mem_preorder` - these are the nodes that are evaluated with the tree.
-/

namespace ActionTree.Node

/-- A node, then all nodes below it by children, each before what stands below it. -/
def preorder : Node → List Node :=
  recurse fun kind origin => ⟨kind.map (·.1), origin⟩ :: kind.children.flatMap (·.2)

theorem preorder_mk (k : Kind Node) (o : Origin) :
    preorder ⟨k, o⟩ = ⟨k, o⟩ :: k.children.flatMap preorder := by
  rw [preorder, recurse_mk, Kind.map_map, Kind.map_self, Kind.children_map, List.flatMap_map]

/-- The nodes in the list are those that the tree reaches. -/
theorem mem_preorder {n m : Node} : m ∈ n.preorder ↔ n.Reaches m := by
  induction n using induct with
  | step k o ih =>
    rw [preorder_mk, List.mem_cons, reaches_mk, List.mem_flatMap]
    refine or_congr_right (exists_congr fun c => and_congr_right fun hc => ?_)
    exact ih c (List.mem_append_left _ hc)

end ActionTree.Node
