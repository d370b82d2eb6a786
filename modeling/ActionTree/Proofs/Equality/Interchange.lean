import ActionTree.Node.Assignment
import ActionTree.Proofs.Dependency.Slots
import ActionTree.Proofs.Equality.Observers
import ActionTree.Proofs.Writing.Congruence
import Mathlib.Data.List.Basic

/-!
# Equal trees stand for each other

Equal trees have one essence, and what is asked of a tree is the same for its essence.  Writing a
tree and collecting its slots look at compound forms, which equality does not see past the class;
they are the same for trees without such forms.

* `Node.bodySteps_essence`, `Node.accesses_essence` - a tree that hides no compound form is written
  like its essence, and touches the same slots;
* `Node.beq_interchangeable` - equal trees are interchangeable.
-/

namespace ActionTree

/-! ### What is asked of a part -/

namespace Node

theorem isScopeReceiver_essence (n : Node) : n.essence.isScopeReceiver = n.isScopeReceiver := by
  have hthrough : n.essence.throughDuplicate = n.throughDuplicate.essence := by
    obtain ⟨k, o⟩ := n
    cases k <;> rfl
  rw [isScopeReceiver, isScopeReceiver, hthrough]
  obtain ⟨k, o⟩ := n.throughDuplicate
  rw [essence_mk]
  cases k <;> rfl

theorem rendersAsThis_essence (locals : Locals) (n : Node) :
    n.essence.rendersAsThis locals = n.rendersAsThis locals :=
  observe_essence_always (f := rendersAsThis locals) (fun k o => by cases k <;> rfl)
    (fun _ => rendersAsThis_map _ _ fun c _ => c.returnType_essence) n

theorem isImplied_essence (locals : Locals) (lookup : Lookup) (n : Node) :
    n.essence.isImplied locals lookup = n.isImplied locals lookup := by
  cases lookup with
  | direct => exact n.isScopeReceiver_essence
  | super => rw [isImplied, isImplied, rendersAsThis_essence, isScopeReceiver_essence]

/-- An essence is written around like the tree. -/
theorem alike_essence (n : Node) : n.essence.Alike n where
  precedence := n.precedence_essence
  returnType := n.returnType_essence
  startsWithMinus :=
    observe_essence_always (fun k o => by cases k <;> rfl) (fun _ => startsWithMinus_map _ _) n

end Node

/-- A kind over essences is written like the kind, with essences as parts. -/
theorem Kind.pieces_essence (locals : Locals) (k : Kind Node) :
    (k.map Node.essence).pieces locals = (k.pieces locals).map (Piece.map Node.essence) :=
  pieces_map (fun c _ => c.alike_essence) fun lookup object _ _ =>
    object.isImplied_essence locals lookup

namespace Node

/-! ### Trees that hide no compound form -/

/-- No assignment past the class in the tree has a compound form. -/
def ShowsCompounds (n : Node) : Prop := ∀ m, n.Contains m → m.kind.hidesCompound = false

/-- A tree that hides no compound form is written like its essence. -/
theorem bodySteps_essence (locals : Locals) {n : Node} (hn : n.ShowsCompounds) :
    n.essence.bodySteps locals = n.bodySteps locals := by
  refine observe_essence (p := fun k => k.hidesCompound = false) (fun k o hk => ?_)
    (fun k h => ?_) hn
  · rw [synthetic, bodySteps_mk, bodySteps_mk, Kind.essence_eq_unlinked hk]
    cases k <;> rfl
  · rw [synthetic, bodySteps_mk, synthetic, bodySteps_mk, Kind.steps_pieces, Kind.steps_pieces,
      Kind.pieces_essence, List.flatMap_map]
    refine List.flatMap_congr fun piece hpiece => ?_
    cases piece with
    | own texts => rfl
    | part grouped c =>
      have hc : c.essence.bodySteps locals = c.bodySteps locals :=
        h c (Kind.mem_parts_of_mem_pieces locals hpiece)
      cases grouped <;> simp [Piece.steps, steps, drawn, Drawn.inParentheses, Drawn.plain, hc]

/-- A tree that hides no compound form touches the slots of its essence. -/
theorem accesses_essence {n : Node} (hn : n.ShowsCompounds) : n.essence.accesses = n.accesses := by
  refine observe_essence (p := fun k => k.hidesCompound = false) (fun k o hk => ?_)
    (fun k h => ?_) hn
  · rw [synthetic, accesses_mk, accesses_mk, Kind.essence_eq_unlinked hk]
    cases k <;> rfl
  · rw [synthetic, accesses_mk, synthetic, accesses_mk, Kind.map_map, Kind.map_congr h]

theorem showsCompounds_mk {k : Kind Node} {o : Origin} :
    ShowsCompounds ⟨k, o⟩ ↔ k.hidesCompound = false ∧ ∀ c ∈ k.parts, c.ShowsCompounds :=
  forall_contains_mk

/-! ### Equal trees -/

/-- Whatever is the same for a tree and its essence is the same for equal trees. -/
theorem eq_of_beq {β : Type} {f : Node → β} {a b : Node} (h : (a == b) = true)
    (ha : f a.essence = f a) (hb : f b.essence = f b) : f a = f b := by
  rw [← ha, ← hb, beq_iff.1 h]

/-- **Equal trees are interchangeable.**  They have the same type, level, effect and value, and they
fold to equal trees.  Where no compound form is hidden in them, every writer does the same with
both, and they touch the same slots. -/
theorem beq_interchangeable {a b : Node} (h : (a == b) = true) (raised : Nat → Bool)
    (live : ∀ i, raised i = false) :
    (a.returnType = b.returnType ∧
      a.precedence = b.precedence ∧
      a.hasSideEffect = b.hasSideEffect ∧
      a.hasReturnValue = b.hasReturnValue ∧
      (a.isCompileTime [] .empty).1 = (b.isCompileTime [] .empty).1 ∧
      a.result = b.result ∧
      ∃ m m', a.foldUnder raised = some m ∧ b.foldUnder raised = some m' ∧ (m == m') = true) ∧
    (a.ShowsCompounds → b.ShowsCompounds →
      (∀ locals w, Writer.run (a.steps locals) w = Writer.run (b.steps locals) w) ∧
      ∃ d, a.dependenciesUnder raised = some d ∧ b.dependenciesUnder raised = some d) := by
  refine ⟨⟨?_, ?_, ?_, ?_, ?_, ?_, ?_⟩, fun ha hb => ⟨fun locals w => ?_, ?_⟩⟩
  · exact eq_of_beq h a.returnType_essence b.returnType_essence
  · exact eq_of_beq h a.precedence_essence b.precedence_essence
  · exact eq_of_beq h a.hasSideEffect_essence b.hasSideEffect_essence
  · exact eq_of_beq h a.hasReturnValue_essence b.hasReturnValue_essence
  · rw [isCompileTime_empty, isCompileTime_empty]
    exact eq_of_beq h a.isConstant_essence b.isConstant_essence
  · exact eq_of_beq h a.result_essence b.result_essence
  · refine ⟨a.fold, b.fold, foldUnder_live live a, foldUnder_live live b, beq_iff.2 ?_⟩
    exact eq_of_beq (f := fun n => n.fold.essence) h a.essence_fold_essence b.essence_fold_essence
  · have hsteps : a.bodySteps locals = b.bodySteps locals :=
      eq_of_beq h (bodySteps_essence locals ha) (bodySteps_essence locals hb)
    show Writer.run (.enter :: a.bodySteps locals) w = Writer.run (.enter :: b.bodySteps locals) w
    rw [hsteps]
  · have haccesses : a.accesses = b.accesses :=
      eq_of_beq h (accesses_essence ha) (accesses_essence hb)
    refine ⟨a.dependencies, dependenciesUnder_live live a, ?_⟩
    rw [dependenciesUnder_live live, dependencies, dependencies, haccesses]

/-- Equal trees are written differently when one of them hides a compound form. -/
example : (storeNaN 1 == addToNaN) = true ∧ (storeNaN 1).source .empty = "super.x = NaN" ∧
    addToNaN.source .empty = "super.x += 1" := by
  decide +kernel

/-- `true ? -0 : super.x = _loc1_ += 2`, where the sum is known to be 7. -/
def choice (instruction declaration : UInt64) : Node :=
  let sum := ((assign (.register 1) (literal (.int 7))).setCompound
    ⟨.add, literal (.int 2)⟩).setDeclaration declaration
  let store := (assign (.property .super this (.static (.ofName "x"))) sum).withOrigin
    (.ofInstruction instruction)
  ternary (literal (.boolean true)) (unary .negate (literal (.int 0)))
    (store.setDeclaration declaration)

theorem showsCompounds_choice (instruction declaration : UInt64) :
    (choice instruction declaration).ShowsCompounds := by
  simp [choice, assign, setCompound, setDeclaration, withOrigin, synthetic, showsCompounds_mk,
    Kind.hidesCompound, Kind.parts, Kind.children, Kind.compound?, Target.children,
    Property.children, Property.static, this, literal, unary, ternary]

/-- The two differ in origins and links at several depths. -/
theorem beq_interchangeable_choice :
    (choice 1 4 == choice 9 7) = true ∧ (∀ _ : Nat, false = false) ∧
      (choice 1 4).ShowsCompounds ∧ (choice 9 7).ShowsCompounds ∧
      (choice 1 4).result = (choice 9 7).result ∧ (choice 9 7).result = .number (.zero true) ∧
      (∃ m m', (choice 1 4).foldUnder (fun _ => false) = some m ∧
        (choice 9 7).foldUnder (fun _ => false) = some m' ∧ (m == m') = true) ∧
      (∀ locals w, Writer.run ((choice 1 4).steps locals) w =
        Writer.run ((choice 9 7).steps locals) w) ∧
      ∃ d, (choice 1 4).dependenciesUnder (fun _ => false) = some d ∧
        (choice 9 7).dependenciesUnder (fun _ => false) = some d := by
  have heq : (choice 1 4 == choice 9 7) = true := by decide +kernel
  have live : ∀ _ : Nat, false = false := fun _ => rfl
  obtain ⟨⟨-, -, -, -, -, hresult, hfold⟩, hshown⟩ :=
    beq_interchangeable heq (fun _ => false) live
  have ha := showsCompounds_choice 1 4
  have hb := showsCompounds_choice 9 7
  obtain ⟨hrun, hslots⟩ := hshown ha hb
  exact ⟨heq, live, ha, hb, hresult, by decide +kernel, hfold, hrun, hslots⟩

end Node

end ActionTree
