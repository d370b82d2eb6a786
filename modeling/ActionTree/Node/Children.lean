import ActionTree.Node.Basic

/-!
# Changing the children of a node

* `Kind.mapChildren` - every child replaced, given its place among the children;
* `Node.replaceChildren` - the children replaced by the nodes of a list, in order.

Compound values are no children: they stay.
-/

namespace ActionTree

variable {α : Type}

/-- A name with its expression replaced, which stands at a place among the children. -/
def Property.mapAt (place : Nat) (f : Nat → α → α) (p : Property α) : Property α :=
  p.map (f place)

/-- A target with its expressions replaced. -/
def Target.mapChildren (f : Nat → α → α) : Target α → Target α
  | .register i => .register i
  | .property lookup object p => .property lookup (f 0 object) (p.mapAt 1 f)

/-- A kind with every child replaced, given its place among the children. -/
def Kind.mapChildren (f : Nat → α → α) : Kind α → Kind α
  | .literal l => .literal l
  | .this => .this
  | .register i t => .register i t
  | .scope p => .scope (p.mapAt 0 f)
  | .duplicate v => .duplicate (f 0 v)
  | .convert t v => .convert t (f 0 v)
  | .coerce t v => .coerce t (f 0 v)
  | .get object p t => .get (f 0 object) (p.mapAt 1 f) t
  | .getSuper object p => .getSuper (f 0 object) (p.mapAt 1 f)
  | .call lookup object p arguments =>
    .call lookup (f 0 object) (p.mapAt 1 f)
      (arguments.mapIdx fun i => f (i + (object :: p.children).length))
  | .construct object arguments => .construct (f 0 object) (arguments.mapIdx fun i => f (i + 1))
  | .assign target v c d => .assign (target.mapChildren f) (f target.children.length v) c d
  | .binary op l r => .binary op (f 0 l) (f 1 r)
  | .unary op v => .unary op (f 0 v)
  | .ternary c a b => .ternary (f 0 c) (f 1 a) (f 2 b)
  | .declare i t v => .declare i t (v.map (f 0))
  | .returnValue v => .returnValue (f 0 v)
  | .returnVoid => .returnVoid
  | .throw v => .throw (f 0 v)

theorem Property.children_mapAt (place : Nat) (f : Nat → α → α) (p : Property α) :
    (p.mapAt place f).children = p.children.mapIdx fun i => f (i + place) := by
  cases p with
  | mk name runtime =>
    cases runtime with
    | none => rfl
    | some a => simp [Property.mapAt, Property.map, Property.children]

theorem Target.children_mapChildren (f : Nat → α → α) (t : Target α) :
    (t.mapChildren f).children = t.children.mapIdx f := by
  cases t with
  | register i => rfl
  | property lookup object p =>
    simp [Target.mapChildren, Target.children, Property.children_mapAt, List.mapIdx_cons]

/-- The children afterwards are the replaced children. -/
theorem Kind.children_mapChildren (f : Nat → α → α) (k : Kind α) :
    (k.mapChildren f).children = k.children.mapIdx f := by
  cases k with
  | call lookup object p arguments =>
    simp [Kind.mapChildren, Kind.children, Property.children_mapAt, List.mapIdx_cons,
      List.mapIdx_append, Nat.add_assoc]
  | assign target v c d =>
    simp [Kind.mapChildren, Kind.children, Target.children_mapChildren, List.mapIdx_append]
  | declare i t v => cases v <;> simp [Kind.mapChildren, Kind.children]
  | _ =>
    simp [Kind.mapChildren, Kind.children, Property.children_mapAt, List.mapIdx_cons]

/-- A node with its children replaced by the nodes of a list.  Where the list is too short, children
stay. -/
def Node.replaceChildren (n : Node) (new : List Node) : Node :=
  { n with kind := n.kind.mapChildren fun i child => new[i]?.getD child }

end ActionTree
