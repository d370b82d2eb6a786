import ActionTree.Node.Basic

/-!
# What a statement reads and writes

* `Slot` - a place that statements share: a register, a property, a property past the class;
* `Node.accesses` - the reads and writes of a tree in the order of evaluation;
* `Node.dependencies` - the same as two lists without repetitions;
* `Node.dependenciesUnder` - the same while others may cancel the token;
* `Dependencies.dependsOn` - whether a statement must stay behind an earlier one.
-/

namespace ActionTree

/-- A storage place. -/
inductive Slot where
  | register (index : UInt32)
  | property (lookup : Lookup) (key : String)
  deriving DecidableEq

/-- The key of a property: its dotted name.  All names computed at runtime share one key. -/
def Property.key {α : Type} (p : Property α) : String :=
  if p.runtime.isSome then "[]" else p.name.fullName

@[simp] theorem Property.key_map {α β : Type} (f : α → β) (p : Property α) :
    (p.map f).key = p.key := by
  simp [Property.key, Property.map]

/-- A read or a write of a slot. -/
inductive Access where
  | read (slot : Slot)
  | write (slot : Slot)
  deriving DecidableEq

namespace Access

/-- The slot of a read. -/
def read? : Access → Option Slot
  | .read s => some s
  | .write _ => none

/-- The slot of a write. -/
def write? : Access → Option Slot
  | .read _ => none
  | .write s => some s

end Access

/-- The slot that an assignment writes. -/
def Target.slot {α : Type} : Target α → Slot
  | .register i => .register i
  | .property lookup _ p => .property lookup p.key

@[simp] theorem Target.slot_map {α β : Type} (f : α → β) (t : Target α) :
    (t.map f).slot = t.slot := by
  cases t <;> simp [Target.map, Target.slot]

/-- The accesses of a kind from those of its parts.  A compound assignment first reads its target,
which evaluates the target's own parts once more. -/
def Kind.accesses (k : Kind (List Access)) : List Access :=
  match k with
  | .register i _ => [.read (.register i)]
  | .get object p _ => object ++ p.children.flatten ++ [.read (.property .direct p.key)]
  | .getSuper object p => object ++ p.children.flatten ++ [.read (.property .super p.key)]
  | .assign target value compound _ =>
    let before := if compound.isSome then target.children.flatten ++ [.read target.slot] else []
    before ++ target.children.flatten ++ value ++ [.write target.slot]
  | .declare i _ (some value) => value ++ [.write (.register i)]
  | k => k.children.flatten

/-- The accesses of a tree in the order of evaluation. -/
def Node.accesses : Node → List Access :=
  Node.recurse fun kind _ => (kind.map (·.2)).accesses

theorem Node.accesses_mk (k : Kind Node) (o : Origin) :
    Node.accesses ⟨k, o⟩ = (k.map Node.accesses).accesses := by
  rw [Node.accesses, Node.recurse_mk, Kind.map_map]

/-- The slots that a statement reads and writes, each once, in the order of first access. -/
structure Dependencies where
  reads : List Slot
  writes : List Slot
  deriving DecidableEq

/-- The dependencies of a tree. -/
def Node.dependencies (n : Node) : Dependencies :=
  ⟨(n.accesses.filterMap Access.read?).eraseDups, (n.accesses.filterMap Access.write?).eraseDups⟩

/-! ### Collecting under a token -/

/-- The number of nodes that collecting looks at in a kind, from those in its parts.  For a compound
assignment it also looks at a read of the target, with the target's own parts below it. -/
def Kind.lookups (k : Kind Nat) : Nat :=
  match k with
  | .assign target value compound _ =>
    let inTarget := target.children.foldl (· + ·) 0
    let before := if compound.isSome then inTarget + 1 else 0
    before + inTarget + value + 1
  | k => k.children.foldl (· + ·) 1

/-- The number of nodes that collecting looks at. -/
def Node.lookups : Node → Nat :=
  Node.recurse fun kind _ => (kind.map (·.2)).lookups

theorem Node.lookups_mk (k : Kind Node) (o : Origin) :
    Node.lookups ⟨k, o⟩ = (k.map Node.lookups).lookups := by
  rw [Node.lookups, Node.recurse_mk, Kind.map_map]

/-- The dependencies of a tree under a token that others may cancel.  The token is checked before
each node that is looked at, and `raised i` is what the check before the `i`-th one finds; there is
no result once a check finds the token cancelled. -/
def Node.dependenciesUnder (raised : Nat → Bool) (n : Node) : Option Dependencies :=
  if (List.range n.lookups).any raised then none else some n.dependencies

/-! ### Order -/

/-- Whether a statement must stay behind an earlier one: it reads what that one writes, or writes
what that one reads or writes. -/
def Dependencies.dependsOn (later earlier : Dependencies) : Bool :=
  later.reads.any earlier.writes.contains
    || later.writes.any fun s => earlier.reads.contains s || earlier.writes.contains s

end ActionTree
