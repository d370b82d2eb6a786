import ActionTree.Node.Assignment
import ActionTree.Node.Steps
import ActionTree.Proofs.Equality.Observers

/-!
# Compound forms under folding

An assignment in compound form tells its operation twice: the stored value is the whole operation on
a new read of the target, and the form has the operator and the other operand.  Folding rewrites the
target, the value and the form apart from each other.  What a target holds is never known ahead, so
the operation stays an operation, and its operands fold like the target and the form.

* `Assignment.InStep` - the stored value is the operation that the form tells;
* `Assignment.folded`, `Node.assignment?_fold` - what folding makes of an assignment;
* `Assignment.InStep.folded` - it stays in step;
* `Node.inStep_fold` - so do all assignments in a tree;
* `Node.foldUnder_inStep` - folding under a token.
-/

namespace ActionTree

open Node

/-! ### What is read from a target -/

theorem Target.reading_map (f : Node → Node) (t : Target Node) :
    (t.map f).reading = t.reading.map f := by
  rcases t with i | ⟨_ | _, object, p⟩ <;> rfl

/-- What a target holds is never known ahead. -/
theorem Target.not_isConstant_reading (t : Target Node) (o : Origin) :
    isConstant ⟨t.reading, o⟩ = false := by
  rcases t with i | ⟨_ | _, object, p⟩ <;> rfl

namespace Assignment

/-- The stored value is the operation of the compound form, on a read of the target and the value of
the form. -/
def InStep (a : Assignment) : Prop :=
  ∀ c, a.compound = some c → ∀ o, (a.value == binary c.operator (a.reading o) c.value) = true

/-- An assignment with all its parts folded. -/
def folded (a : Assignment) : Assignment :=
  ⟨a.target.map fold, a.value.fold, a.compound.map (·.map fold), a.declaration⟩

/-- The read of a target folds to the read of the folded target. -/
theorem fold_reading (a : Assignment) (o : Origin) : (a.reading o).fold = a.folded.reading o := by
  have hread : fold ⟨a.target.reading, o⟩ = ⟨a.target.reading.map fold, o⟩ :=
    fold_of_not_isConstant (a.target.not_isConstant_reading o)
  rw [reading, hread, ← Target.reading_map]
  rfl

/-- An operation on what a target holds stays one. -/
theorem fold_binary_reading (a : Assignment) (op : BinaryOperator) (o : Origin) (v : Node) :
    (binary op (a.reading o) v).fold = binary op (a.folded.reading o) v.fold := by
  have hunknown : (binary op (a.reading o) v).isConstant = false := by
    rw [binary, synthetic, isConstant, reading, a.target.not_isConstant_reading]
    simp
  rw [binary, synthetic, fold_of_not_isConstant hunknown, Kind.map, fold_reading]
  rfl

/-- The origin of the read takes no part in equality. -/
theorem beq_binary_reading (a : Assignment) (op : BinaryOperator) (o o' : Origin) (v : Node) :
    (binary op (a.reading o) v == binary op (a.reading o') v) = true := by
  have hread : (a.reading o).essence = (a.reading o').essence := by
    rw [reading, reading, essence_mk, essence_mk]
  rw [beq_iff, binary, binary, synthetic, synthetic, essence_mk, essence_mk, Kind.map, Kind.map,
    hread]

/-- Folding an assignment keeps it in step. -/
theorem InStep.folded {a : Assignment} (h : a.InStep) : a.folded.InStep := by
  intro c' hc' o
  obtain ⟨c, hc, rfl⟩ := Option.map_eq_some_iff.1 hc'
  have hfold := beq_fold (h c hc o)
  rwa [fold_binary_reading] at hfold

end Assignment

namespace Node

/-! ### Assigning nodes -/

/-- Folding makes assignments of assignments, and of nothing else. -/
theorem assignment?_fold (n : Node) : n.fold.assignment? = n.assignment?.map (·.folded) := by
  obtain ⟨k, o⟩ := n
  rw [fold_mk]
  split
  · rename_i l hl
    have hconstant := (literal?_eq_some hl).2.1
    cases k with
    | assign => cases hconstant
    | _ => rfl
  · cases k <;> rfl

theorem kindName_fold {n : Node} {a : Assignment} (h : n.assignment? = some a) :
    n.fold.kindName = n.kindName := by
  obtain ⟨k, o⟩ := n
  cases k with
  | assign target v c d =>
    rw [fold_of_not_isConstant rfl]
    rcases target with i | ⟨_ | _, object, p⟩ <;> rfl
  | _ => cases h

/-! ### Trees -/

/-- A node in a folded tree is a literal or what an old node folds to. -/
theorem contains_fold {n m : Node} (h : n.fold.Contains m) :
    m.isLiteral = true ∨ ∃ d, n.Contains d ∧ m = d.fold := by
  induction n using induct with
  | step k o ih =>
    have hroot : m = fold ⟨k, o⟩ → ∃ d, Contains ⟨k, o⟩ d ∧ m = d.fold :=
      fun hm => ⟨_, .refl, hm⟩
    rw [fold_mk] at h hroot
    split at h
    · rename_i l hl
      rcases contains_mk.1 h with rfl | ⟨c, hc, -⟩
      · exact .inl rfl
      · simp [Kind.parts, Kind.children, Kind.compound?] at hc
    · rename_i hstays
      rw [hstays] at hroot
      rcases contains_mk.1 h with hm | ⟨c, hc, hm⟩
      · exact .inr (hroot hm)
      · rw [Kind.parts_map] at hc
        obtain ⟨d, hd, rfl⟩ := List.mem_map.1 hc
        exact (ih d hd hm).imp_right fun ⟨e, he, hme⟩ => ⟨e, contains_mk.2 (.inr ⟨d, hd, he⟩), hme⟩

/-- All assignments in a tree are in step. -/
def InStep (n : Node) : Prop := ∀ m a, n.Contains m → m.assignment? = some a → a.InStep

/-- Folding a tree keeps all assignments in it in step. -/
theorem inStep_fold {n : Node} (h : n.InStep) : n.fold.InStep := by
  intro m a' hm ha'
  rcases contains_fold hm with hliteral | ⟨d, hd, rfl⟩
  · obtain ⟨k, o⟩ := m
    cases k with
    | literal l => cases ha'
    | _ => cases hliteral
  · rw [assignment?_fold] at ha'
    obtain ⟨a, ha, rfl⟩ := Option.map_eq_some_iff.1 ha'
    exact (h d a hd ha).folded

/-! ### Folding under a token -/

/-- **Folding keeps a compound form in step with the stored value.**  Under a token that stays live,
an assignment whose stored value is the operation of its form on the target folds to the same kind
of assignment with a form of the same operator, and what it stores is the operation of that form on
its own target. -/
theorem foldUnder_inStep {s : Node} {a : Assignment} {c : Compound Node} {o : Origin}
    (hs : s.assignment? = some a) (hc : a.compound = some c)
    (hstep : (a.value == binary c.operator (a.reading o) c.value) = true)
    (raised : Nat → Bool) (live : ∀ i, raised i = false) :
    ∃ m a' c', s.foldUnder raised = some m ∧
      m.kindName = s.kindName ∧
      m.assignment? = some a' ∧
      a'.compound = some c' ∧
      c'.operator = c.operator ∧
      ∀ o', (a'.value == binary c'.operator (a'.reading o') c'.value) = true := by
  have hin : a.InStep := by
    intro d hd o'
    obtain rfl : c = d := Option.some.inj (hc.symm.trans hd)
    exact PartialEquivBEq.trans hstep (a.beq_binary_reading c.operator o o' c.value)
  have hform : a.folded.compound = some (c.map fold) := by
    rw [Assignment.folded, hc, Option.map_some]
  refine ⟨s.fold, a.folded, c.map fold, foldUnder_live live s, kindName_fold hs, ?_, hform, rfl, ?_⟩
  · rw [assignment?_fold, hs]
    rfl
  · exact hin.folded _ hform

/-- `1 + 2`, by an instruction. -/
def third (instruction : UInt64) : Node :=
  (binary .add (literal (.int 1)) (literal (.int 2))).withOrigin (.ofInstruction instruction)

/-- `2 * 3`, by an instruction. -/
def product (instruction : UInt64) : Node :=
  (binary .multiply (literal (.int 2)) (literal (.int 3))).withOrigin (.ofInstruction instruction)

/-- `super[1 + 2] += 2 * 3`, where other instructions read than store. -/
def addToThird : Assignment where
  target := .property .super this (.computed (third 5))
  value := binary .add (getSuper this (.computed (third 2))) (product 3)
  compound := some ⟨.add, product 4⟩
  declaration := none

/-- The node of this assignment. -/
def addToThirdStore : Node :=
  (assign addToThird.target addToThird.value).setCompound ⟨.add, product 4⟩

/-- Name and operand become literals in the stored value, in the target and in the form. -/
theorem foldUnder_inStep_addToThird :
    addToThirdStore.assignment? = some addToThird ∧
      addToThird.compound = some ⟨.add, product 4⟩ ∧
      (addToThird.value == binary .add (addToThird.reading .synthetic) (product 4)) = true ∧
      (∀ _ : Nat, false = false) ∧
      ∃ m a' c', addToThirdStore.foldUnder (fun _ => false) = some m ∧
        m.source .empty = "super[3] += 6" ∧
        m.kindName = "SetSuper" ∧
        m.assignment? = some a' ∧
        a'.compound = some c' ∧
        (a'.value == binary .add (a'.reading .synthetic) c'.value) = true := by
  have hs : addToThirdStore.assignment? = some addToThird := rfl
  have hstep :
      (addToThird.value == binary .add (addToThird.reading .synthetic) (product 4)) = true := by
    decide +kernel
  have live : ∀ _ : Nat, false = false := fun _ => rfl
  obtain ⟨m, a', c', hm, hkind, ha', hc', hop, hstored⟩ :=
    foldUnder_inStep (c := ⟨.add, product 4⟩) hs rfl hstep (fun _ => false) live
  have hfold : addToThirdStore.fold = m := by
    rw [foldUnder_live live] at hm
    exact Option.some.inj hm
  refine ⟨hs, rfl, hstep, live, m, a', c', hm, ?_, hkind, ha', hc', ?_⟩
  · rw [← hfold]
    decide +kernel
  · have hlast := hstored .synthetic
    rwa [hop] at hlast

end Node

end ActionTree
