import ActionTree.Node.Basic

/-!
# Assignments

* `Assignment` - the target, value, compound form and declaration of an assigning node;
* `Assignment.reading` - the node that reads what the assignment writes;
* `Node.setCompound`, `Node.setDeclaration` - an assignment with another form or link.
-/

namespace ActionTree

/-- The view of a node as an assignment. -/
structure Assignment where
  target : Target Node
  value : Node
  compound : Option (Compound Node)
  declaration : Option UInt64

/-- The read of a target. -/
def Target.reading : Target Node → Kind Node
  | .register i => .register i .any
  | .property .direct object p => .get object p .any
  | .property .super object p => .getSuper object p

/-- A new node that reads the slot an assignment writes. -/
def Assignment.reading (a : Assignment) (origin : Origin) : Node := ⟨a.target.reading, origin⟩

namespace Node

/-- The assignment in a node, if it is one. -/
def assignment? (n : Node) : Option Assignment :=
  match n.kind with
  | .assign target value compound declaration => some ⟨target, value, compound, declaration⟩
  | _ => none

/-- An assignment in compound form; other nodes stay as they are. -/
def setCompound (n : Node) (c : Compound Node) : Node :=
  match n.kind with
  | .assign target value _ declaration =>
    { n with kind := .assign target value (some c) declaration }
  | _ => n

/-- An assignment with a link to a declaration; other nodes stay as they are. -/
def setDeclaration (n : Node) (declaration : UInt64) : Node :=
  match n.kind with
  | .assign target value compound _ =>
    { n with kind := .assign target value compound (some declaration) }
  | _ => n

end Node

end ActionTree
