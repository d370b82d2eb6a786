import ActionTree.Node.Build
import ActionTree.Node.Children
import ActionTree.Node.Steps
import ActionTree.Node.Traversal
import ActionTree.Proofs.Tree.Preorder
import Mathlib.Data.List.Basic

/-!
# Walks, rewriting and children agree

A pass can take the children of a node from their list, rewrite them in place, or have them handed
to it on a walk.  All three have the same nodes in the same order.

* `Item.nodes`, `Kind.nodes_items` - the nodes that the items of a kind hand over are its children;
* `Node.nodes_fullWalk` - a walk meets the nodes of the tree in order;
* `Kind.mapChildren_mapChildren`, `Kind.mapChildren_eq_self` - rewriting twice, and not at all;
* `Kind.mapChildren_congr` - only what happens to the children matters;
* `Node.children_replaceChildren`, `Node.replaceChildren_children` - rewriting and its undoing;
* `Node.traversals_agree` - **the three agree on every tree**.
-/

namespace ActionTree

variable {α β : Type}

/-! ### Walking -/

namespace Item

@[simp] theorem node?_node (n : α) : (node n).node? = some n := rfl

@[simp] theorem node?_type (t : StaticType) : (type t : Item α).node? = none := rfl

@[simp] theorem node?_name (p : Property α) : (name p).node? = none := rfl

/-- The nodes that an item hands over: itself, or the one that computes a name. -/
def nodes : Item α → List α
  | node n => [n]
  | type _ => []
  | name p => p.children

/-- An item with other nodes. -/
def map (f : α → β) : Item α → Item β
  | node n => node (f n)
  | type t => type t
  | name p => name (p.map f)

theorem nodes_map (f : α → β) (i : Item α) : (i.map f).nodes = i.nodes.map f := by
  cases i with
  | node n | type t => rfl
  | name p => exact Kind.children_map_property f p

/-- The nodes that an item expands to: what it hands over, each with what its own walk meets. -/
theorem nodes_expand (i : Item (Node × List (Item Node))) :
    i.expand.filterMap node? = i.nodes.flatMap fun n => n.1 :: n.2.filterMap node? := by
  cases i with
  | node n => simp [expand, nodes]
  | type t => rfl
  | name p =>
    obtain ⟨name, runtime⟩ := p
    cases runtime <;> simp [expand, nodes, Property.children, List.filterMap_cons]

/-- A walk that is cancelled meets the first nodes, and it ends if there are no more. -/
theorem within_eq (limit : Nat) (is : List (Item α)) :
    (within limit is).1.filterMap node? = (is.filterMap node?).take limit ∧
      (within limit is).2 = decide ((is.filterMap node?).length ≤ limit) := by
  induction is generalizing limit with
  | nil => simp [within]
  | cons i is ih =>
    cases i with
    | node n =>
      cases limit with
      | zero => simp [within]
      | succ limit => simp [within, ih limit]
    | type t | name p =>
      rw [List.filterMap_cons_none rfl]
      cases limit <;> exact ih _

end Item

namespace Kind

theorem items_map (f : α → β) (k : Kind α) : (k.map f).items = k.items.map (Item.map f) := by
  cases k with
  | assign target v c d => cases target <;> rfl
  | call | construct => simp [map, items, Item.map, Function.comp_def]
  | declare i t v => cases v <;> rfl
  | _ => rfl

/-- The nodes that are handed over are the children. -/
theorem nodes_items (k : Kind α) : k.items.flatMap Item.nodes = k.children := by
  have hlist (as : List α) : (as.map Item.node).flatMap Item.nodes = as := by
    rw [List.flatMap_map]
    exact List.flatMap_singleton' as
  cases k with
  | call lookup object p as =>
    rw [items, List.flatMap_cons, List.flatMap_cons, hlist]
    rfl
  | construct object as =>
    rw [items, List.flatMap_cons, hlist]
    rfl
  | assign target v c d => cases target <;> simp [items, Item.nodes, children, Target.children]
  | declare i t v =>
    rw [items, List.flatMap_cons, hlist]
    rfl
  | _ => simp [items, Item.nodes, children]

end Kind

/-- A walk meets the nodes of the tree, each before those below it. -/
theorem Node.nodes_fullWalk (n : Node) : n.fullWalk.filterMap Item.node? = n.preorder := by
  induction n using Node.induct with
  | step k o ih =>
    have hitem (i : Item Node) : (i.map fun n => (n, n.walk)).expand.filterMap Item.node? =
        i.nodes.flatMap fun n => n.fullWalk.filterMap Item.node? := by
      rw [Item.nodes_expand, Item.nodes_map, List.flatMap_map]
      rfl
    have hroot : (fullWalk ⟨k, o⟩).filterMap Item.node? =
        ⟨k, o⟩ :: (walk ⟨k, o⟩).filterMap Item.node? :=
      List.filterMap_cons_some (Item.node?_node _)
    rw [hroot, preorder_mk, walk_mk, Kind.items_map, List.flatMap_map, List.filterMap_flatMap]
    simp only [hitem]
    rw [← List.flatMap_assoc, k.nodes_items]
    exact congrArg _ (List.flatMap_congr fun c hc => ih c (List.mem_append_left _ hc))

/-! ### Rewriting -/

namespace Property

theorem mapAt_mapAt (place : Nat) (f g : Nat → α → α) (p : Property α) :
    (p.mapAt place f).mapAt place g = p.mapAt place fun i c => g i (f i c) := by
  cases p with
  | mk name runtime => cases runtime <;> rfl

theorem length_children_mapAt (place : Nat) (f : Nat → α → α) (p : Property α) :
    (p.mapAt place f).children.length = p.children.length := by
  rw [children_mapAt, List.length_mapIdx]

theorem mapAt_congr {place : Nat} {f g : Nat → α → α} {p : Property α}
    (h : ∀ i c, p.children[i]? = some c → f (i + place) c = g (i + place) c) :
    p.mapAt place f = p.mapAt place g := by
  cases p with
  | mk name runtime =>
    cases runtime with
    | none => rfl
    | some c =>
      have hc : f (0 + place) c = g (0 + place) c := h 0 c rfl
      rw [Nat.zero_add] at hc
      rw [mapAt, mapAt, map, map, Option.map_some, Option.map_some, hc]

theorem mapAt_self (place : Nat) (p : Property α) : (p.mapAt place fun _ c => c) = p := by
  cases p with
  | mk name runtime => cases runtime <;> rfl

end Property

namespace Target

theorem mapChildren_mapChildren (f g : Nat → α → α) (t : Target α) :
    (t.mapChildren f).mapChildren g = t.mapChildren fun i c => g i (f i c) := by
  cases t with
  | register i => rfl
  | property lookup object p => simp only [mapChildren, Property.mapAt_mapAt]

theorem mapChildren_congr {f g : Nat → α → α} {t : Target α}
    (h : ∀ i c, t.children[i]? = some c → f i c = g i c) :
    t.mapChildren f = t.mapChildren g := by
  cases t with
  | register i => rfl
  | property lookup object p =>
    rw [mapChildren, mapChildren, h 0 object rfl,
      Property.mapAt_congr fun i c hc => h (i + 1) c hc]

theorem mapChildren_self (t : Target α) : (t.mapChildren fun _ c => c) = t := by
  cases t with
  | register i => rfl
  | property lookup object p => rw [mapChildren, Property.mapAt_self]

end Target

/-! A value keeps its place in a longer list. -/

theorem getElem?_append_of_left {as bs : List α} {i : Nat} {a : α} (h : as[i]? = some a) :
    (as ++ bs)[i]? = some a := by
  obtain ⟨hi, -⟩ := List.getElem?_eq_some_iff.1 h
  rw [List.getElem?_append_left hi, h]

theorem getElem?_append_of_right {as bs : List α} {i : Nat} {b : α} (h : bs[i]? = some b) :
    (as ++ bs)[i + as.length]? = some b := by
  rw [List.getElem?_append_right (Nat.le_add_left _ _), Nat.add_sub_cancel, h]

theorem mapIdx_congr {f g : Nat → α → α} {as : List α}
    (h : ∀ i a, as[i]? = some a → f i a = g i a) : as.mapIdx f = as.mapIdx g := by
  refine List.ext_getElem? fun i => ?_
  rw [List.getElem?_mapIdx, List.getElem?_mapIdx]
  cases ha : as[i]? with
  | none => rfl
  | some a => exact congrArg some (h i a ha)

theorem mapIdx_all (f : α → α) (as : List α) : (as.mapIdx fun _ => f) = as.map f := by
  refine List.ext_getElem? fun i => ?_
  rw [List.getElem?_mapIdx, List.getElem?_map]

namespace Kind

/-- Rewriting the children twice is rewriting them once. -/
theorem mapChildren_mapChildren (f g : Nat → α → α) (k : Kind α) :
    (k.mapChildren f).mapChildren g = k.mapChildren fun i c => g i (f i c) := by
  cases k with
  | call lookup object p as =>
    simp [mapChildren, Property.mapAt_mapAt, Property.length_children_mapAt, List.mapIdx_mapIdx,
      Function.comp_def]
  | construct object as => simp [mapChildren, List.mapIdx_mapIdx, Function.comp_def]
  | assign target v c d =>
    simp [mapChildren, Target.mapChildren_mapChildren, Target.children_mapChildren]
  | declare i t v => cases v <;> rfl
  | _ => simp only [mapChildren, Property.mapAt_mapAt]

/-- Two ways of rewriting that agree on the children give the same kind. -/
theorem mapChildren_congr {f g : Nat → α → α} {k : Kind α}
    (h : ∀ i c, k.children[i]? = some c → f i c = g i c) :
    k.mapChildren f = k.mapChildren g := by
  cases k with
  | literal | this | register | returnVoid => rfl
  | scope p => rw [mapChildren, mapChildren, Property.mapAt_congr h]
  | duplicate v | convert t v | coerce t v | unary op v | returnValue v | throw v =>
    rw [mapChildren, mapChildren, h 0 v rfl]
  | get object p t =>
    rw [mapChildren, mapChildren, h 0 object rfl,
      Property.mapAt_congr fun i c hc => h (i + 1) c hc]
  | getSuper object p =>
    rw [mapChildren, mapChildren, h 0 object rfl,
      Property.mapAt_congr fun i c hc => h (i + 1) c hc]
  | call lookup object p as =>
    have hchildren : (call lookup object p as).children = (object :: p.children) ++ as := rfl
    have hp : p.mapAt 1 f = p.mapAt 1 g :=
      Property.mapAt_congr fun i c hc => h (i + 1) c (getElem?_append_of_left hc)
    have has : (as.mapIdx fun i => f (i + (object :: p.children).length)) =
        as.mapIdx fun i => g (i + (object :: p.children).length) :=
      mapIdx_congr fun i c hc => h _ c (hchildren ▸ getElem?_append_of_right hc)
    rw [mapChildren, mapChildren, h 0 object rfl, hp, has]
  | construct object as =>
    rw [mapChildren, mapChildren, h 0 object rfl, mapIdx_congr fun i c hc => h (i + 1) c hc]
  | assign target v c d =>
    have htarget : target.mapChildren f = target.mapChildren g :=
      Target.mapChildren_congr fun i c hc => h i c (getElem?_append_of_left hc)
    have hv : f target.children.length v = g target.children.length v := by
      refine h _ v ?_
      rw [children, List.getElem?_concat_length]
    rw [mapChildren, mapChildren, htarget, hv]
  | binary op l r => rw [mapChildren, mapChildren, h 0 l rfl, h 1 r rfl]
  | ternary c a b => rw [mapChildren, mapChildren, h 0 c rfl, h 1 a rfl, h 2 b rfl]
  | declare i t v =>
    cases v with
    | none => rfl
    | some v => rw [mapChildren, mapChildren, Option.map_some, Option.map_some, h 0 v rfl]

theorem mapChildren_self (k : Kind α) : (k.mapChildren fun _ c => c) = k := by
  have hlist (as : List α) : (as.mapIdx fun _ c => c) = as := by
    rw [mapIdx_all, List.map_id']
  cases k with
  | declare i t v => cases v <;> rfl
  | _ => simp only [mapChildren, Property.mapAt_self, Target.mapChildren_self, hlist]

/-- Rewriting every child by itself changes nothing. -/
theorem mapChildren_eq_self {f : Nat → α → α} {k : Kind α}
    (h : ∀ i c, k.children[i]? = some c → f i c = c) : k.mapChildren f = k :=
  (mapChildren_congr h).trans k.mapChildren_self

end Kind

namespace Node

/-- The children afterwards are the nodes of the list, if there is one for each child. -/
theorem children_replaceChildren {n : Node} {new : List Node}
    (h : new.length = n.children.length) : (n.replaceChildren new).children = new := by
  rw [children, replaceChildren, Kind.children_mapChildren]
  refine List.ext_getElem? fun i => ?_
  rw [List.getElem?_mapIdx]
  cases hc : n.kind.children[i]? with
  | none =>
    rw [List.getElem?_eq_none_iff] at hc
    exact (List.getElem?_eq_none (h ▸ hc)).symm
  | some c =>
    obtain ⟨hi, -⟩ := List.getElem?_eq_some_iff.1 hc
    have hnew : i < new.length := h ▸ hi
    rw [Option.map_some, List.getElem?_eq_getElem hnew, Option.getD_some]

/-- Putting the children back restores a node, whatever its children were replaced by. -/
theorem replaceChildren_children (n : Node) (new : List Node) :
    (n.replaceChildren new).replaceChildren n.children = n := by
  obtain ⟨k, o⟩ := n
  rw [replaceChildren, replaceChildren, Kind.mapChildren_mapChildren]
  refine congrArg (Node.mk · o) (Kind.mapChildren_eq_self fun i c hc => ?_)
  rw [children, hc, Option.getD_some]

/-- Replacing the children by themselves changes nothing. -/
theorem replaceChildren_self (n : Node) : n.replaceChildren n.children = n := by
  obtain ⟨k, o⟩ := n
  refine congrArg (Node.mk · o) (Kind.mapChildren_eq_self fun i c hc => ?_)
  rw [children, hc, Option.getD_some]

/-- **Walks, rewriting and the list of children agree.**  On every node, the nodes that are handed
to a pass which follows names are the children in order; rewriting the children puts the nodes of a
list in their places, in order, and changes nothing else, since putting the children back restores
the node.  So a walk meets the nodes of a tree in the order that the children give, and one that is
cancelled meets the first of them. -/
theorem traversals_agree (n : Node) :
    n.kind.items.flatMap Item.nodes = n.children ∧
      (∀ new : List Node, new.length = n.children.length →
        (n.replaceChildren new).children = new ∧
          (n.replaceChildren new).replaceChildren n.children = n) ∧
      n.replaceChildren n.children = n ∧
      n.fullWalk.filterMap Item.node? = n.preorder ∧
      ∀ limit, (Item.within limit n.fullWalk).1.filterMap Item.node? = n.preorder.take limit ∧
        (Item.within limit n.fullWalk).2 = decide (n.preorder.length ≤ limit) := by
  refine ⟨n.kind.nodes_items, fun new h => ?_, n.replaceChildren_self, n.nodes_fullWalk,
    fun limit => ?_⟩
  · exact ⟨children_replaceChildren h, n.replaceChildren_children new⟩
  · rw [← n.nodes_fullWalk]
    exact Item.within_eq limit n.fullWalk

/-- `super[_loc1_] += 3`, which stores the result of a call. -/
def storeCall : Node :=
  synthetic (.assign (.property .super this (.computed (register 1)))
    (call .direct (register 2) (.static (.ofName "f")) [literal (.int 2)])
    (some ⟨.add, literal (.int 3)⟩) none)

/-- The name and the stored value change places, and the compound value stays. -/
theorem traversals_agree_storeCall :
    [this, literal (.int 7), register 1].length = storeCall.children.length ∧
      (storeCall.replaceChildren [this, literal (.int 7), register 1]).children =
        [this, literal (.int 7), register 1] ∧
      (storeCall.replaceChildren [this, literal (.int 7), register 1]).source .empty =
        "super[7] += 3" ∧
      storeCall.preorder.map kindName =
        ["SetSuper", "This", "LocalRegister", "CallProperty", "LocalRegister", "Integer"] := by
  have hlength : [this, literal (.int 7), register 1].length = storeCall.children.length := rfl
  exact ⟨hlength, ((traversals_agree storeCall).2.1 _ hlength).1, by decide +kernel, by decide⟩

end Node

end ActionTree
