import ActionTree.Node.Induction
import Mathlib.Logic.Relation

/-!
# The nodes of a tree

* `Node.Reaches` - a node is evaluated with the tree: it is the root or stands below it by children;
* `Node.Contains` - a node stands in the tree at all, perhaps in the value of a compound form;
* `Node.reaches_mk`, `Node.contains_mk` - a node of a tree is the root or a node of a part;
* `Node.forall_contains_mk` - what holds of all nodes of a tree.
-/

namespace ActionTree

theorem Kind.parts_map {α β : Type} (f : α → β) (k : Kind α) :
    (k.map f).parts = k.parts.map f := by
  rw [parts, parts, List.map_append, children_map, compound?_map]
  congr 1
  cases k.compound? <;> rfl

namespace Node

/-- A node is the root or stands below it by children. -/
def Reaches : Node → Node → Prop := Relation.ReflTransGen fun n c => c ∈ n.children

/-- A node is the root or stands below it by children and compound values. -/
def Contains : Node → Node → Prop := Relation.ReflTransGen fun n c => c ∈ n.kind.parts

theorem reaches_mk {k : Kind Node} {o : Origin} {m : Node} :
    Reaches ⟨k, o⟩ m ↔ m = ⟨k, o⟩ ∨ ∃ c ∈ k.children, c.Reaches m :=
  Relation.ReflTransGen.cases_head_iff.trans (or_congr_left eq_comm)

theorem contains_mk {k : Kind Node} {o : Origin} {m : Node} :
    Contains ⟨k, o⟩ m ↔ m = ⟨k, o⟩ ∨ ∃ c ∈ k.parts, c.Contains m :=
  Relation.ReflTransGen.cases_head_iff.trans (or_congr_left eq_comm)

/-- All nodes of a tree are the root and all nodes of the parts. -/
theorem forall_contains_mk {P : Node → Prop} {k : Kind Node} {o : Origin} :
    (∀ m, Contains ⟨k, o⟩ m → P m) ↔ P ⟨k, o⟩ ∧ ∀ c ∈ k.parts, ∀ m, c.Contains m → P m := by
  refine ⟨fun h => ⟨h _ .refl, fun c hc m hm => h m (hm.head hc)⟩, fun ⟨hroot, hparts⟩ m hm => ?_⟩
  rcases contains_mk.1 hm with rfl | ⟨c, hc, hm⟩
  · exact hroot
  · exact hparts c hc m hm

end Node

end ActionTree
