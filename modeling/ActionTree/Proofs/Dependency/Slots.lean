import ActionTree.Node.Build
import ActionTree.Node.Dependencies
import ActionTree.Proofs.Tree.Reach
import Mathlib.Tactic.Tauto

/-!
# The slots of a tree

Every access of a tree is an access that some node in it makes by itself.

* `Kind.reads?`, `Kind.writes?` - the slots that a node reads and writes by itself;
* `Node.mem_accesses` - the accesses of a tree are those of its nodes;
* `Node.mem_reads`, `Node.mem_writes` - the slots of its dependencies;
* `Node.dependenciesUnder_exact` - under a live token a tree has dependencies, which are these
  slots, each once;
* `Dependencies.dependsOn_iff` - a statement depends on an earlier one by a slot of both.
-/

namespace ActionTree

/-! ### What a node accesses by itself -/

namespace Kind

variable {α β : Type}

/-- The slot that a node reads by itself.  A compound assignment reads its target. -/
def reads? : Kind α → Option Slot
  | .register i _ => some (.register i)
  | .get _ p _ => some (.property .direct p.key)
  | .getSuper _ p => some (.property .super p.key)
  | .assign target _ (some _) _ => some target.slot
  | _ => none

/-- The slot that a node writes by itself.  A declaration without a value writes nothing. -/
def writes? : Kind α → Option Slot
  | .assign target _ _ _ => some target.slot
  | .declare i _ (some _) => some (.register i)
  | _ => none

/-- What a node accesses by itself. -/
def ownAccesses (k : Kind α) : List Access :=
  (k.reads?.map .read).toList ++ (k.writes?.map .write).toList

theorem read_mem_ownAccesses {k : Kind α} {s : Slot} :
    .read s ∈ k.ownAccesses ↔ k.reads? = some s := by
  simp [ownAccesses]

theorem write_mem_ownAccesses {k : Kind α} {s : Slot} :
    .write s ∈ k.ownAccesses ↔ k.writes? = some s := by
  simp [ownAccesses]

/-- The slots of a kind do not depend on its parts. -/
theorem ownAccesses_map (f : α → β) (k : Kind α) : (k.map f).ownAccesses = k.ownAccesses := by
  cases k with
  | assign target v compound d =>
    cases compound <;> simp [map, ownAccesses, reads?, writes?]
  | declare i t v => cases v <;> rfl
  | _ => simp [map, ownAccesses, reads?, writes?]

/-- An access of a kind is one of its children's or its own. -/
theorem mem_accesses {k : Kind (List Access)} {x : Access} :
    x ∈ k.accesses ↔ x ∈ k.children.flatten ∨ x ∈ k.ownAccesses := by
  cases k with
  | assign target v compound d =>
    cases compound with
    | none => simp [accesses, children, ownAccesses, reads?, writes?, or_assoc]
    | some c =>
      -- what the target accesses stands before the read and once more before the write
      simp only [accesses, children, ownAccesses, reads?, writes?, Option.isSome_some, if_pos,
        Option.map_some, Option.toList_some, List.flatten_append, List.flatten_singleton,
        List.mem_append]
      tauto
  | declare i t v => cases v <;> simp [accesses, children, ownAccesses, reads?, writes?]
  | _ => simp [accesses, children, ownAccesses, reads?, writes?, or_assoc]

end Kind

/-! ### Trees -/

/-- What is left without repetitions has none. -/
theorem nodup_eraseDups {α : Type} [BEq α] [LawfulBEq α] (l : List α) : l.eraseDups.Nodup := by
  induction hlength : l.length using Nat.strongRecOn generalizing l with
  | ind n ih =>
    cases l with
    | nil => simp
    | cons a l =>
      rw [List.eraseDups_cons, List.nodup_cons]
      refine ⟨by simp [List.mem_eraseDups], ih _ ?_ _ rfl⟩
      rw [← hlength]
      exact Nat.lt_succ_of_le (List.length_filter_le _ l)

namespace Node

/-- The accesses of a tree are those of its nodes. -/
theorem mem_accesses {n : Node} {x : Access} :
    x ∈ n.accesses ↔ ∃ m, n.Reaches m ∧ x ∈ m.kind.ownAccesses := by
  induction n using induct with
  | step k o ih =>
    have hchildren : x ∈ (k.map accesses).children.flatten ↔
        ∃ c ∈ k.children, ∃ m, c.Reaches m ∧ x ∈ m.kind.ownAccesses := by
      rw [Kind.children_map, ← List.flatMap_def, List.mem_flatMap]
      exact exists_congr fun c => and_congr_right fun hc => ih c (List.mem_append_left _ hc)
    rw [accesses_mk, Kind.mem_accesses, Kind.ownAccesses_map, hchildren]
    constructor
    · rintro (⟨c, hc, m, hm, hx⟩ | hx)
      · exact ⟨m, reaches_mk.2 (Or.inr ⟨c, hc, hm⟩), hx⟩
      · exact ⟨⟨k, o⟩, reaches_mk.2 (Or.inl rfl), hx⟩
    · rintro ⟨m, hm, hx⟩
      rcases reaches_mk.1 hm with rfl | ⟨c, hc, hm⟩
      · exact Or.inr hx
      · exact Or.inl ⟨c, hc, m, hm, hx⟩

/-- A tree reads what its nodes read. -/
theorem mem_reads {n : Node} {s : Slot} :
    s ∈ n.dependencies.reads ↔ ∃ m, n.Reaches m ∧ m.kind.reads? = some s := by
  have hread (x : Access) : x.read? = some s ↔ x = .read s := by
    cases x <;> simp [Access.read?]
  simp only [dependencies, List.mem_eraseDups, List.mem_filterMap, hread, exists_eq_right,
    mem_accesses, Kind.read_mem_ownAccesses]

/-- A tree writes what its nodes write. -/
theorem mem_writes {n : Node} {s : Slot} :
    s ∈ n.dependencies.writes ↔ ∃ m, n.Reaches m ∧ m.kind.writes? = some s := by
  have hwrite (x : Access) : x.write? = some s ↔ x = .write s := by
    cases x <;> simp [Access.write?]
  simp only [dependencies, List.mem_eraseDups, List.mem_filterMap, hwrite, exists_eq_right,
    mem_accesses, Kind.write_mem_ownAccesses]

theorem dependenciesUnder_live {raised : Nat → Bool} (live : ∀ i, raised i = false) (n : Node) :
    n.dependenciesUnder raised = some n.dependencies := by
  rw [dependenciesUnder, if_neg]
  simp [live]

/-- **The dependencies of a tree are the slots that its nodes touch.**  Under a live token they are
found, and each slot is listed once. -/
theorem dependenciesUnder_exact (raised : Nat → Bool) (live : ∀ i, raised i = false) (n : Node) :
    ∃ d, n.dependenciesUnder raised = some d ∧ d.reads.Nodup ∧ d.writes.Nodup ∧
      (∀ s, s ∈ d.reads ↔ ∃ m, n.Reaches m ∧ m.kind.reads? = some s) ∧
      ∀ s, s ∈ d.writes ↔ ∃ m, n.Reaches m ∧ m.kind.writes? = some s := by
  refine ⟨n.dependencies, dependenciesUnder_live live n, ?_, ?_, fun s => ?_, fun s => ?_⟩
  · exact nodup_eraseDups (n.accesses.filterMap Access.read?)
  · exact nodup_eraseDups (n.accesses.filterMap Access.write?)
  · exact mem_reads
  · exact mem_writes

/-- `super[_loc1_] += _loc3_`, where what is stored turns out to be 7. -/
def addToComputed : Node :=
  (assign (.property .super this (.computed (register 1))) (literal (.int 7))).setCompound
    ⟨.add, register 3⟩

/-- `var _loc2_:* = f(super[_loc1_] += _loc3_, _loc1_)`. -/
def declareCall : Node :=
  declare 2 .any (some
    (call .direct this (.static (.ofName "f")) [addToComputed, register 1]))

/-- The name is read for the compound form and once more for the assignment, and the value of the
compound form is not read at all. -/
theorem dependenciesUnder_exact_declareCall :
    (∀ _ : Nat, false = false) ∧
      ∃ d, declareCall.dependenciesUnder (fun _ => false) = some d ∧
        d = ⟨[.register 1, .property .super "[]"], [.property .super "[]", .register 2]⟩ ∧
        (∀ s, s ∈ d.reads ↔ ∃ m, declareCall.Reaches m ∧ m.kind.reads? = some s) ∧
        ∀ s, s ∈ d.writes ↔ ∃ m, declareCall.Reaches m ∧ m.kind.writes? = some s := by
  have live : ∀ _ : Nat, false = false := fun _ => rfl
  obtain ⟨d, hd, -, -, hreads, hwrites⟩ :=
    dependenciesUnder_exact (fun _ => false) live declareCall
  refine ⟨live, d, hd, ?_, hreads, hwrites⟩
  rw [dependenciesUnder_live live, Option.some.injEq] at hd
  rw [← hd]
  decide +kernel

end Node

/-! ### Order -/

namespace Dependencies

/-- The later statement reads what the earlier one writes, or writes what that one accesses. -/
def ConflictAt (later earlier : Dependencies) (s : Slot) : Prop :=
  s ∈ later.reads ∧ s ∈ earlier.writes ∨
    s ∈ later.writes ∧ (s ∈ earlier.reads ∨ s ∈ earlier.writes)

/-- A statement must stay behind an earlier one when they conflict at a slot. -/
theorem dependsOn_iff {later earlier : Dependencies} :
    later.dependsOn earlier = true ↔ ∃ s, later.ConflictAt earlier s := by
  simp [dependsOn, ConflictAt, exists_or]

end Dependencies

end ActionTree
