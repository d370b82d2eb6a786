import ActionTree.Node.Assignment
import ActionTree.Node.Dependencies
import ActionTree.Proofs.Tree.Pass
import ActionTree.Proofs.Tree.Traversal
import Mathlib.Algebra.Order.BigOperators.Group.List
import Mathlib.Algebra.Order.Group.Nat

/-!
# Slots collected on a walk

The slots of a tree can be collected by a pass that is handed the parts of each node, follows names,
and visits a new read of the target before it goes through an assignment in compound form.  The
token is checked before each node, and the pass returns at the first check that finds it cancelled.

* `Node.visits` - the nodes that a visit of a node leads to, in order;
* `Kind.recorded` - what it records behind them;
* `Node.accesses_eq_visits`, `Node.lookups_eq_visits` - accesses and checks in these terms;
* `Node.collect` - the pass;
* `Node.collect_eq_checked` - the checks that it makes and what it collects;
* `Node.dependenciesUnder_eq_collect` - **it gives the dependencies under the token**.
-/

namespace ActionTree

/-! ### One visit -/

namespace Node

/-- The nodes that a visit of a node leads to, in order.  Before the parts of an assignment in
compound form comes a new read of its target. -/
def visits (n : Node) : List Node :=
  let reads := match n.assignment? with
    | some a => if a.compound.isSome then [a.reading n.origin] else []
    | none => []
  reads ++ n.kind.items.flatMap Item.nodes

end Node

/-- The access that a visit records once the parts were visited. -/
def Kind.recorded {α : Type} : Kind α → Option Access
  | .register i _ => some (.read (.register i))
  | .get _ p _ => some (.read (.property .direct p.key))
  | .getSuper _ p => some (.read (.property .super p.key))
  | .assign target _ _ _ => some (.write target.slot)
  | .declare i _ (some _) => some (.write (.register i))
  | _ => none

namespace Node

/-- A read of a target accesses what the target does, and reads its slot. -/
theorem accesses_reading (t : Target Node) (o : Origin) :
    accesses ⟨t.reading, o⟩ = t.children.flatMap accesses ++ [.read t.slot] := by
  rw [accesses_mk]
  rcases t with i | ⟨_ | _, object, p⟩ <;>
    simp [Target.reading, Kind.map, Kind.accesses, Target.children, Target.slot, List.flatMap_def]

/-- What a tree accesses is what its visits access, and what is recorded behind them. -/
theorem accesses_eq_visits (n : Node) :
    n.accesses = n.visits.flatMap accesses ++ n.kind.recorded.toList := by
  obtain ⟨k, o⟩ := n
  rw [accesses_mk, visits, Kind.nodes_items]
  cases k with
  | assign target v compound d =>
    cases compound <;>
      simp [Kind.map, Kind.accesses, Kind.children, Kind.recorded, assignment?,
        Assignment.reading, accesses_reading, List.flatMap_def]
  | declare i t v =>
    cases v <;> simp [Kind.map, Kind.accesses, Kind.children, Kind.recorded, assignment?]
  | _ =>
    simp [Kind.map, Kind.accesses, Kind.children, Kind.recorded, assignment?, List.flatMap_def]

/-- A read of a target looks at one node more than the target has. -/
theorem lookups_reading (t : Target Node) (o : Origin) :
    lookups ⟨t.reading, o⟩ = 1 + (t.children.map lookups).sum := by
  rw [lookups_mk]
  rcases t with i | ⟨_ | _, object, p⟩ <;>
    simp only [Target.reading, Kind.map, Kind.lookups, foldl_add, Kind.children,
      Target.children, Kind.children_map_property, List.map_cons, List.map_nil]

/-- A visit looks at its own node and at those of the visits it leads to. -/
theorem lookups_eq_visits (n : Node) : n.lookups = 1 + (n.visits.map lookups).sum := by
  obtain ⟨k, o⟩ := n
  rw [visits, Kind.nodes_items]
  cases k with
  | assign target v compound d =>
    have hlookups : lookups ⟨.assign target v compound d, o⟩ =
        (if compound.isSome then (target.children.map lookups).sum + 1 else 0) +
          (target.children.map lookups).sum + v.lookups + 1 := by
      rw [lookups_mk]
      simp [Kind.map, Kind.lookups, foldl_add]
    rw [hlookups]
    cases compound <;>
      simp [assignment?, Kind.children, Assignment.reading, lookups_reading] <;> omega
  | _ =>
    rw [lookups_mk]
    refine (foldl_add 1 (Kind.map lookups _).children).trans ?_
    rw [Kind.children_map]
    rfl

/-- A visit leads to nodes with fewer nodes to look at. -/
theorem lookups_lt_of_mem_visits {n m : Node} (h : m ∈ n.visits) : m.lookups < n.lookups := by
  have hle : m.lookups ≤ (n.visits.map lookups).sum :=
    List.le_sum_of_mem (List.mem_map_of_mem h)
  rw [lookups_eq_visits n]
  omega

/-- What passes from the nodes that a visit leads to, to the visited node, holds of all trees. -/
theorem induct_visits {P : Node → Prop} (step : ∀ n, (∀ m ∈ n.visits, P m) → P n) (n : Node) :
    P n := by
  induction hlookups : n.lookups using Nat.strongRecOn generalizing n with
  | ind i ih => exact step n fun m hm => ih _ (hlookups ▸ lookups_lt_of_mem_visits hm) m rfl

end Node

/-! ### The pass -/

/-- The dependencies with one more access; a slot that is listed is not listed again. -/
def Dependencies.record (d : Dependencies) : Access → Dependencies
  | .read s => if d.reads.contains s then d else { d with reads := d.reads ++ [s] }
  | .write s => if d.writes.contains s then d else { d with writes := d.writes ++ [s] }

/-- The dependencies with some more accesses. -/
def Dependencies.recordAll (xs : List Access) (d : Dependencies) : Dependencies :=
  xs.foldl .record d

theorem Dependencies.recordAll_append (xs ys : List Access) (d : Dependencies) :
    d.recordAll (xs ++ ys) = (d.recordAll xs).recordAll ys :=
  List.foldl_append

/-- Records accesses. -/
def Pass.record (xs : List Access) : Pass Dependencies Unit :=
  modify fun (i, d) => (i, d.recordAll xs)

theorem Pass.record_eq_checked (raised : Nat → Bool) (xs : List Access) :
    Pass.record xs = Pass.checked raised 0 fun d => ((), d.recordAll xs) := rfl

/-- Collects the dependencies of a tree. -/
def Node.collect (raised : Nat → Bool) (n : Node) : Pass Dependencies Unit := do
  Pass.check raised
  let _ ← Pass.inOrder (n.visits.attach.map fun m => m.1.collect raised)
  Pass.record n.kind.recorded.toList
termination_by n.lookups
decreasing_by exact lookups_lt_of_mem_visits m.2

namespace Node

theorem thread_recordAll (ns : List Node) (d : Dependencies) :
    (Pass.thread (fun n d => ((), d.recordAll n.accesses)) ns d).2 =
      d.recordAll (ns.flatMap accesses) := by
  induction ns generalizing d with
  | nil => rfl
  | cons n ns ih =>
    rw [Pass.thread, ih, List.flatMap_cons, Dependencies.recordAll_append]

/-- The pass checks the token before each node that is looked at, and records the accesses. -/
theorem collect_eq_checked (raised : Nat → Bool) (n : Node) :
    n.collect raised = Pass.checked raised n.lookups fun d => ((), d.recordAll n.accesses) := by
  induction n using induct_visits with
  | step n ih =>
    have hvisits : (Pass.inOrder (n.visits.map (collect raised)) >>= fun _ =>
        Pass.record n.kind.recorded.toList) =
          Pass.checked raised (n.visits.map lookups).sum fun d => ((), d.recordAll n.accesses) := by
      rw [Pass.inOrder_checked ih, Pass.record_eq_checked raised, Pass.checked_bind,
        accesses_eq_visits n]
      simp only [thread_recordAll, Dependencies.recordAll_append, Nat.add_zero]
    rw [collect, List.attach_map_val, lookups_eq_visits, hvisits, ← Pass.checked_one]
    exact Pass.checked_bind _ _ _ _

end Node

/-! ### Slots without repetitions -/

/-- One more at the end of a list is listed unless it was before. -/
theorem eraseDups_concat {α : Type} [BEq α] [LawfulBEq α] (as : List α) (a : α) :
    (as ++ [a]).eraseDups =
      if as.eraseDups.contains a then as.eraseDups else as.eraseDups ++ [a] := by
  rw [List.eraseDups_append]
  by_cases ha : a ∈ as
  · rw [if_pos (by simp [List.mem_eraseDups, ha])]
    simp [List.removeAll, ha]
  · rw [if_neg (by simp [List.mem_eraseDups, ha])]
    simp [List.removeAll, ha, List.eraseDups_cons]

namespace Dependencies

/-- The dependencies of accesses: their slots, each once. -/
def ofAccesses (xs : List Access) : Dependencies :=
  ⟨(xs.filterMap Access.read?).eraseDups, (xs.filterMap Access.write?).eraseDups⟩

theorem record_ofAccesses (xs : List Access) (x : Access) :
    (ofAccesses xs).record x = ofAccesses (xs ++ [x]) := by
  cases x with
  | read s =>
    have hreads : (xs ++ [Access.read s]).filterMap Access.read? =
        xs.filterMap Access.read? ++ [s] := List.filterMap_append
    have hwrites : (xs ++ [Access.read s]).filterMap Access.write? = xs.filterMap Access.write? :=
      List.filterMap_append.trans (List.append_nil _)
    rw [ofAccesses, ofAccesses, hreads, hwrites, eraseDups_concat, record]
    dsimp only
    split_ifs <;> rfl
  | write s =>
    have hreads : (xs ++ [Access.write s]).filterMap Access.read? = xs.filterMap Access.read? :=
      List.filterMap_append.trans (List.append_nil _)
    have hwrites : (xs ++ [Access.write s]).filterMap Access.write? =
        xs.filterMap Access.write? ++ [s] := List.filterMap_append
    rw [ofAccesses, ofAccesses, hreads, hwrites, eraseDups_concat, record]
    dsimp only
    split_ifs <;> rfl

/-- Recording accesses one by one leaves their slots, each once. -/
theorem recordAll_ofAccesses (xs ys : List Access) :
    (ofAccesses xs).recordAll ys = ofAccesses (xs ++ ys) := by
  induction ys generalizing xs with
  | nil => rw [List.append_nil]; rfl
  | cons y ys ih =>
    have hstep : (ofAccesses xs).recordAll (y :: ys) = ((ofAccesses xs).record y).recordAll ys := rfl
    rw [hstep, record_ofAccesses, ih, List.append_assoc, List.singleton_append]

end Dependencies

/-- **The pass gives the dependencies under the token**: none once a check finds it cancelled, and
else what was collected. -/
theorem Node.dependenciesUnder_eq_collect (raised : Nat → Bool) (n : Node) :
    n.dependenciesUnder raised = ((n.collect raised).run (0, ⟨[], []⟩)).map (·.2.2) := by
  have hall : Dependencies.recordAll n.accesses ⟨[], []⟩ = n.dependencies :=
    Dependencies.recordAll_ofAccesses [] n.accesses
  rw [collect_eq_checked, dependenciesUnder, ← hall]
  simp only [StateT.run, Pass.checked, Nat.zero_add]
  split_ifs <;> rfl

end ActionTree
