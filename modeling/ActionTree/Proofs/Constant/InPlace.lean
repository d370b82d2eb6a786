import ActionTree.Node.Assignment
import ActionTree.Node.Fold
import ActionTree.Node.Induction
import ActionTree.Proofs.Tree.Pass
import ActionTree.Proofs.Tree.Reach
import ActionTree.Proofs.Tree.Traversal

/-!
# Folding in place

Folding can be done by a pass that rewrites the children of a node one by one, and then the value of
its compound form.  The token is checked before each node, and the pass returns at the first check
that finds it cancelled.

* `Node.foldInPlace` - the pass;
* `Node.map_eq_replaceChildren` - rewriting the children and the compound value rewrites all parts;
* `Node.foldInPlace_eq_checked` - the checks that it makes and the tree that it leaves;
* `Node.foldUnder_eq_foldInPlace` - **it folds under the token**.
-/

namespace ActionTree.Node

/-! ### The pass -/

/-- Rewrites the value of a compound form. -/
def foldCompound (n : Node) : Option (Compound (Node × Pass Unit Node)) → Pass Unit Node
  | none => pure n
  | some c => do
    let value ← c.value.2
    pure (n.setCompound ⟨c.operator, value⟩)

/-- Folds the parts of a kind, each of which stands beside what folds it: the children, then the
compound value. -/
def foldParts (k : Kind (Node × Pass Unit Node)) (o : Origin) : Pass Unit Node := do
  let children ← Pass.inOrder (k.children.map (·.2))
  foldCompound (replaceChildren ⟨k.map (·.1), o⟩ children) k.compound?

/-- Folds a kind.  The parts of what becomes a literal are not looked at. -/
def foldKind (raised : Nat → Bool) (k : Kind (Node × Pass Unit Node)) (o : Origin) :
    Pass Unit Node := do
  Pass.check raised
  match literal? ⟨k.map (·.1), o⟩ with
  | some l => pure ⟨.literal l, o⟩
  | none => foldParts k o

/-- Folds a tree. -/
def foldInPlace (raised : Nat → Bool) : Node → Pass Unit Node := recurse (foldKind raised)

theorem foldInPlace_mk (raised : Nat → Bool) (k : Kind Node) (o : Origin) :
    foldInPlace raised ⟨k, o⟩ = foldKind raised (k.map fun n => (n, n.foldInPlace raised)) o :=
  recurse_mk _ k o

/-! ### All parts -/

/-- Rewriting the children, and then the value of the compound form, rewrites all parts. -/
theorem map_eq_replaceChildren (f : Node → Node) (k : Kind Node) (o : Origin) :
    (k.compound?.elim (replaceChildren ⟨k, o⟩ (k.children.map f)) fun c =>
      (replaceChildren ⟨k, o⟩ (k.children.map f)).setCompound (c.map f)) = ⟨k.map f, o⟩ := by
  have hall : replaceChildren ⟨k, o⟩ (k.children.map f) = ⟨k.mapChildren fun _ => f, o⟩ := by
    refine congrArg (Node.mk · o) (Kind.mapChildren_congr fun i c hc => ?_)
    rw [List.getElem?_map, hc, Option.map_some, Option.getD_some]
  rw [hall]
  cases k with
  | assign target v compound d =>
    have htarget : (target.mapChildren fun _ => f) = target.map f := by cases target <;> rfl
    cases compound <;> simp [Kind.compound?, Kind.mapChildren, Kind.map, setCompound, htarget]
  | call | construct =>
    simp [Kind.compound?, Kind.mapChildren, Kind.map, mapIdx_all, Property.mapAt]
  | _ => rfl

/-! ### What the pass does -/

theorem foldVisits_mk (k : Kind Node) (o : Origin) :
    foldVisits ⟨k, o⟩ = match literal? ⟨k, o⟩ with
      | some _ => 1
      | none => 1 + (k.parts.map foldVisits).sum := by
  rw [foldVisits, foldVisitsLater, recurse_mk]
  simp only [Kind.map_map, Kind.map_self, Kind.parts_map, List.foldl_map]
  cases literal? ⟨k, o⟩ with
  | some l => rfl
  | none =>
    rw [← foldl_add, List.foldl_map]
    rfl

section

variable {raised : Nat → Bool}

/-- The pass makes the checks of a tree and leaves the folded tree. -/
def FoldsInPlace (raised : Nat → Bool) (n : Node) : Prop :=
  n.foldInPlace raised = Pass.checked raised n.foldVisits fun s => (n.fold, s)

/-- Folding the compound value, behind the children. -/
theorem foldCompound_eq_checked {compound : Option (Compound Node)}
    (h : ∀ c, compound = some c → c.value.FoldsInPlace raised) (n : Node) :
    foldCompound n (compound.map (·.map fun n => (n, n.foldInPlace raised))) =
      Pass.checked raised ((compound.map (·.value)).toList.map foldVisits).sum
        fun s => (compound.elim n fun c => n.setCompound (c.map fold), s) := by
  cases compound with
  | none => rfl
  | some c =>
    show (c.value.foldInPlace raised >>= fun value => pure (n.setCompound ⟨c.operator, value⟩)) = _
    rw [h c rfl, Pass.checked_map]
    rfl

theorem foldParts_eq_checked {k : Kind Node} (h : ∀ n ∈ k.parts, n.FoldsInPlace raised)
    (o : Origin) :
    foldParts (k.map fun n => (n, n.foldInPlace raised)) o =
      Pass.checked raised (k.parts.map foldVisits).sum fun s => (⟨k.map fold, o⟩, s) := by
  have hchildren : Pass.inOrder (k.children.map fun n => n.foldInPlace raised) =
      Pass.checked raised (k.children.map foldVisits).sum fun s => (k.children.map fold, s) := by
    rw [Pass.inOrder_checked fun n hn => h n (List.mem_append_left _ hn)]
    exact congrArg (Pass.checked raised _) (funext fun s => Pass.thread_pure fold k.children s)
  have hcompound (c : Compound Node) (hc : k.compound? = some c) : c.value.FoldsInPlace raised :=
    h c.value (List.mem_append_right _ (by simp [hc]))
  rw [foldParts]
  simp only [Kind.map_map, Kind.map_self, Kind.children_map, Kind.compound?_map, List.map_map,
    Function.comp_def, hchildren, foldCompound_eq_checked hcompound, Pass.checked_bind,
    map_eq_replaceChildren, Kind.parts, List.map_append, List.sum_append]

/-- The pass checks the token before each node that is looked at, and leaves the folded tree. -/
theorem foldInPlace_eq_checked (raised : Nat → Bool) (n : Node) : n.FoldsInPlace raised := by
  induction n using induct with
  | step k o ih =>
    rw [FoldsInPlace, foldInPlace_mk, foldKind, foldVisits_mk, fold_mk, foldParts_eq_checked ih,
      ← Pass.checked_one, Kind.map_map, Kind.map_self]
    cases literal? ⟨k, o⟩ with
    | some l =>
      dsimp only
      rw [Pass.checked_map]
    | none =>
      dsimp only
      rw [Pass.checked_bind]

end

/-- **The pass folds under the token**: there is no result once a check finds it cancelled, and else
the folded tree. -/
theorem foldUnder_eq_foldInPlace (raised : Nat → Bool) (n : Node) :
    n.foldUnder raised = ((n.foldInPlace raised).run (0, ())).map (·.1) := by
  rw [foldInPlace_eq_checked, foldUnder]
  simp only [StateT.run, Pass.checked, Nat.zero_add]
  split_ifs <;> rfl

end ActionTree.Node
