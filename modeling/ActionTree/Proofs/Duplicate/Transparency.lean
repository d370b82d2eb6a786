import ActionTree.Proofs.Duplicate.Erasure
import ActionTree.Proofs.Equality.Observers
import ActionTree.Proofs.Typing.Folding
import ActionTree.Proofs.Value.Conversion

/-!
# Copies are transparent

Folding a tree with copies and folding it without them give equal trees: a copy of a known value
becomes the literal that its value becomes, and a copy of a literal becomes that literal once more.

* `Literal.ofValue?_value` - a literal is the literal of its value in a context of its type;
* `Node.essence_withoutCopies_fold` - folding commutes with taking out copies, up to equality;
* `Node.withoutCopies_transparent` - nothing tells a tree from the tree without copies, but for
  receivers under several copies.
-/

namespace ActionTree

namespace Literal

/-- A literal is told by its type and its value. -/
theorem eq_of_type_of_value {l m : Literal} (htype : l.type = m.type) (hvalue : l.value = m.value) :
    l = m := by
  cases l with
  | int i =>
    cases m with
    | int j =>
      have hword := congrArg Value.toInt32 hvalue
      rw [value, value, Value.toInt32_ofInt32, Value.toInt32_ofInt32] at hword
      rw [hword]
    | _ => cases htype
  | uint i =>
    cases m with
    | uint j =>
      have hword := congrArg Value.toUInt32 hvalue
      rw [value, value, Value.toUInt32_ofUInt32, Value.toUInt32_ofUInt32] at hword
      rw [hword]
    | _ => cases htype
  | number x | string s | boolean b | null | undefined =>
    cases m with
    | int | uint => cases htype
    | _ => cases hvalue <;> rfl

/-- A literal is the literal of its own value in a context of its own type. -/
theorem ofValue?_value (l : Literal) : ofValue? l.value l.type = some l := by
  cases l with
  | int i =>
    have htype := type_ofValue? rfl (Value.hasType_ofInt32 i) rfl
    exact congrArg some (eq_of_type_of_value htype (value_ofValue? rfl))
  | uint i =>
    have htype := type_ofValue? rfl (Value.hasType_ofUInt32 i) rfl
    exact congrArg some (eq_of_type_of_value htype (value_ofValue? rfl))
  | _ => rfl

end Literal

namespace Node

/-! ### Folding -/

/-- What a tree of known value and without effects folds to, also when it is a literal already. -/
theorem fold_of_ofValue? {n : Node} {l : Literal} (heffect : n.hasSideEffect = false)
    (hconstant : n.isConstant = true) (hl : Literal.ofValue? n.result n.returnType = some l) :
    n.fold = ⟨.literal l, n.origin⟩ := by
  obtain ⟨k, o⟩ := n
  rw [fold_mk, literal?]
  cases k with
  | literal m =>
    obtain rfl : m = l := Option.some.inj (m.ofValue?_value.symm.trans hl)
    rfl
  | _ => rw [if_neg (by simp [heffect, hconstant, isLiteral, Kind.isLiteral]), hl]

/-- The literal that stands for a tree stands for the tree without copies, or is that tree. -/
theorem fold_withoutCopies_of_literal? {n : Node} {l : Literal} (h : n.literal? = some l) :
    n.withoutCopies.fold = ⟨.literal l, n.withoutCopies.origin⟩ := by
  obtain ⟨heffect, hconstant, -⟩ := literal?_eq_some h
  have hl : Literal.ofValue? n.result n.returnType = some l := by
    rw [literal?] at h
    split at h
    · cases h
    · exact h
  refine fold_of_ofValue? (n.hasSideEffect_withoutCopies.trans heffect)
    (n.isConstant_withoutCopies.trans hconstant) ?_
  rw [result_withoutCopies, returnType_withoutCopies, hl]

/-- Copies in the parts of a node do not change the literal that stands for it. -/
theorem literal?_withoutCopies {k : Kind Node} (o : Origin) (h : k.isCopy = false) :
    literal? ⟨k.map withoutCopies, o⟩ = literal? ⟨k, o⟩ := by
  have hliteral : isLiteral ⟨k.map withoutCopies, o⟩ = isLiteral ⟨k, o⟩ := Kind.isLiteral_map _ k
  rw [literal?, hliteral, ← withoutCopies_mk o h, hasSideEffect_withoutCopies,
    isConstant_withoutCopies, result_withoutCopies, returnType_withoutCopies, ← literal?]

/-- Folding commutes with taking out copies, up to equality. -/
theorem essence_withoutCopies_fold (n : Node) :
    n.fold.withoutCopies.essence = n.withoutCopies.fold.essence := by
  induction n using induct with
  | step k o ih =>
    rw [fold_mk]
    split
    · rename_i l hl
      -- the two literals may differ in origin, which equality ignores
      rw [fold_withoutCopies_of_literal? hl]
      rfl
    · rename_i hstays
      cases hk : k.isCopy with
      | false =>
        rw [withoutCopies_mk o hk, fold_mk, literal?_withoutCopies o hk, hstays,
          withoutCopies_mk o (by rw [Kind.isCopy_map, hk]), essence_mk, essence_mk, Kind.map_map,
          Kind.map_map, Kind.map_map, Kind.map_map, Kind.map_congr ih]
      | true =>
        obtain ⟨v, rfl⟩ := Kind.exists_of_isCopy hk
        rw [Kind.map, withoutCopies_duplicate, withoutCopies_duplicate]
        exact ih v (by simp [Kind.parts, Kind.children])

/-! ### Transparency -/

/-- **Copies are transparent.**  A tree and the same tree with every copy replaced by its value have
the same type, level, value and effects, both values are known ahead or none is, and both touch the
same slots.  Where no receiver is a lookup in the scope chain under two copies or more, they are
written the same.  Under a token that stays live both fold, and without copies the folded tree
equals what the tree without copies folds to. -/
theorem withoutCopies_transparent (n : Node) (raised : Nat → Bool) (live : ∀ i, raised i = false) :
    (n.CopiesLookupsOnce → ∀ locals, n.withoutCopies.source locals = n.source locals) ∧
      n.withoutCopies.returnType = n.returnType ∧
      n.withoutCopies.precedence = n.precedence ∧
      n.withoutCopies.result = n.result ∧
      (n.withoutCopies.isCompileTime [] .empty).1 = (n.isCompileTime [] .empty).1 ∧
      n.withoutCopies.hasSideEffect = n.hasSideEffect ∧
      (∃ d, n.dependenciesUnder raised = some d ∧
        n.withoutCopies.dependenciesUnder raised = some d) ∧
      ∃ m m', n.foldUnder raised = some m ∧ n.withoutCopies.foldUnder raised = some m' ∧
        (m.withoutCopies == m') = true := by
  refine ⟨fun hn locals => ?_, n.returnType_withoutCopies, n.precedence_withoutCopies,
    n.result_withoutCopies, ?_, n.hasSideEffect_withoutCopies, ?_, ?_⟩
  · rw [source_eq, source_eq, chars_withoutCopies locals hn]
  · rw [isCompileTime_empty, isCompileTime_empty, isConstant_withoutCopies]
  · refine ⟨n.dependencies, dependenciesUnder_live live n, ?_⟩
    rw [dependenciesUnder_live live, dependencies, dependencies, accesses_withoutCopies]
  · exact ⟨n.fold, n.withoutCopies.fold, foldUnder_live live n, foldUnder_live live _,
      beq_iff.2 n.essence_withoutCopies_fold⟩

theorem copiesLookupsOnce_mk {k : Kind Node} {o : Origin} :
    CopiesLookupsOnce ⟨k, o⟩ ↔
      (∀ lookup object p, k.access? = some (lookup, object, p) → ¬ object.IsRecopiedLookup) ∧
        ∀ c ∈ k.parts, c.CopiesLookupsOnce :=
  forall_contains_mk

/-- `this[1 + 2] += 3`, with copies of the receiver, of an operand in the name, of the stored value
and of the value of the form. -/
def storeCopies : Node :=
  (assign
    (.property .direct (duplicate (scope (.static (.ofName "x"))))
      (.computed (binary .add (literal (.int 1)) (duplicate (literal (.int 2))))))
    (duplicate (duplicate (literal (.number .nan))))).setCompound
    ⟨.add, duplicate (literal (.int 3))⟩

/-- Folding leaves one copy, that of the receiver, which is not written. -/
theorem withoutCopies_transparent_storeCopies :
    storeCopies.CopiesLookupsOnce ∧ (∀ _ : Nat, false = false) ∧
      storeCopies.source .empty = "this[1 + 2] += 3" ∧
      storeCopies.withoutCopies.source .empty = "this[1 + 2] += 3" ∧
      (∃ d, storeCopies.dependenciesUnder (fun _ => false) = some d ∧
        storeCopies.withoutCopies.dependenciesUnder (fun _ => false) = some d) ∧
      ∃ m m', storeCopies.foldUnder (fun _ => false) = some m ∧
        storeCopies.withoutCopies.foldUnder (fun _ => false) = some m' ∧
        m.source .empty = "this[3] += 3" ∧ (m.withoutCopies == m') = true := by
  have live : ∀ _ : Nat, false = false := fun _ => rfl
  have hcopies : storeCopies.CopiesLookupsOnce := by
    simp [storeCopies, assign, setCompound, duplicate, scope, binary, literal, synthetic,
      copiesLookupsOnce_mk, Kind.access?, IsRecopiedLookup, copies, Kind.parts, Kind.children,
      Kind.compound?, Target.children, Property.children, Property.static, Property.computed]
  obtain ⟨htext, -, -, -, -, -, hslots, m, m', hm, hm', heq⟩ :=
    withoutCopies_transparent storeCopies (fun _ => false) live
  have hsource : storeCopies.source .empty = "this[1 + 2] += 3" := by decide +kernel
  have hfold : storeCopies.fold = m := by
    rw [foldUnder_live live] at hm
    exact Option.some.inj hm
  refine ⟨hcopies, live, hsource, (htext hcopies .empty).trans hsource, hslots, m, m', hm, hm', ?_,
    heq⟩
  rw [← hfold]
  decide +kernel

/-- A receiver under two copies is written, and without copies it is not. -/
example :
    let receiver := duplicate (duplicate (scope (.static (.ofName "x"))))
    (get receiver (.static (.ofName "x"))).source .empty = "x.x" ∧
      (get receiver (.static (.ofName "x"))).withoutCopies.source .empty = "x" := by
  decide +kernel

end Node

end ActionTree
