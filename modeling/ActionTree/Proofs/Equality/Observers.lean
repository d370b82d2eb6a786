import ActionTree.Proofs.Constant.Folding
import ActionTree.Proofs.Equality.Bare
import ActionTree.Proofs.Equality.Essence
import ActionTree.Proofs.Tree.Reach

/-!
# What equality leaves visible

The essence of a tree is what equality compares.  A function of trees that looks at the essence of
the root and at the same function of the parts gives the same for a tree and for its essence.

* `Node.observe_essence` - this induction, once, for all such functions;
* `Node.returnType_essence`, `Node.precedence_essence`, `Node.hasSideEffect_essence`,
  `Node.hasReturnValue_essence`, `Node.result_essence`, `Node.isConstant_essence` - the essence of a
  tree is of the same type, level, effect and value;
* `Node.essence_fold_essence`, `Node.beq_fold` - and folds to an equal tree, so equal trees fold to
  equal trees.
-/

namespace ActionTree

variable {α β : Type}

/-! ### Kinds -/

namespace Kind

/-- Tells the assignments past the class that have a compound form.  Equality does not see it. -/
def hidesCompound : Kind α → Bool
  | .assign (.property .super _ _) _ (some _) _ => true
  | _ => false

/-- Of the other kinds equality ignores only the link to a declaration. -/
theorem essence_eq_unlinked {k : Kind α} (h : k.hidesCompound = false) :
    k.essence = k.unlinked := by
  cases k with
  | assign target v c d =>
    rcases target with i | ⟨_ | _, object, p⟩
    · rfl
    · rfl
    · cases c with
      | none => rfl
      | some c => cases h
  | _ => rfl

theorem essence_essence (k : Kind α) : k.essence.essence = k.essence := by
  cases k with
  | assign target v c d => rcases target with i | ⟨_ | _, object, p⟩ <;> rfl
  | _ => rfl

theorem children_essence (k : Kind α) : k.essence.children = k.children := by
  cases k <;> rfl

/-- A kind keeps at most its own parts. -/
theorem mem_parts_of_mem_essence {k : Kind α} {a : α} (h : a ∈ k.essence.parts) :
    a ∈ k.parts := by
  rw [parts, children_essence] at h
  rcases List.mem_append.1 h with h | h
  · exact List.mem_append_left _ h
  · cases k with
    | assign target v c d =>
      rcases target with i | ⟨_ | _, object, p⟩
      · exact List.mem_append_right _ h
      · exact List.mem_append_right _ h
      · simp [essence, compound?, Target.comparesCompound] at h
    | _ => simp [essence, compound?] at h

end Kind

namespace Node

variable {f : Node → β}

/-! ### Functions of trees -/

/-- A function is the same for a tree and its essence if it does not see what the essence of a kind
leaves out and makes its value from those of the parts.  The first is asked only of kinds `p`, when
all nodes of the tree are such. -/
theorem observe_essence {p : Kind Node → Prop}
    (hkind : ∀ k o, p k → f (synthetic k.essence) = f ⟨k, o⟩)
    (hparts : ∀ k : Kind Node, (∀ c ∈ k.parts, f c.essence = f c) →
      f (synthetic (k.map essence)) = f (synthetic k))
    {n : Node} (hn : ∀ m, n.Contains m → p m.kind) : f n.essence = f n := by
  induction n using induct with
  | step k o ih =>
    have hbelow : ∀ c ∈ k.essence.parts, f c.essence = f c := by
      intro c hc
      have hck : c ∈ k.parts := Kind.mem_parts_of_mem_essence hc
      exact ih c hck fun m hm => hn m (contains_mk.2 (Or.inr ⟨c, hck, hm⟩))
    calc f (essence ⟨k, o⟩)
        = f (synthetic (k.essence.map essence)) := by rw [essence_mk, Kind.essence_map]
      _ = f (synthetic k.essence) := hparts k.essence hbelow
      _ = f ⟨k, o⟩ := hkind k o (hn ⟨k, o⟩ (contains_mk.2 (Or.inl rfl)))

/-- The same for functions that see it in no kind. -/
theorem observe_essence_always
    (hkind : ∀ k o, f (synthetic k.essence) = f ⟨k, o⟩)
    (hparts : ∀ k : Kind Node, (∀ c ∈ k.parts, f c.essence = f c) →
      f (synthetic (k.map essence)) = f (synthetic k))
    (n : Node) : f n.essence = f n :=
  observe_essence (p := fun _ => True) (fun k o _ => hkind k o) hparts fun _ _ => trivial

/-! ### Attributes -/

@[simp] theorem returnType_essence (n : Node) : n.essence.returnType = n.returnType :=
  observe_essence_always (fun k o => by cases k <;> rfl) (fun _ => returnType_map _ _) n

@[simp] theorem precedence_essence (n : Node) : n.essence.precedence = n.precedence :=
  observe_essence_always (fun k o => by cases k <;> rfl) (fun _ => precedence_map _ _) n

theorem hasSideEffect_essence (n : Node) : n.essence.hasSideEffect = n.hasSideEffect := by
  refine observe_essence_always (fun k o => ?_) (fun k => hasSideEffect_map _ _) n
  rw [synthetic, hasSideEffect_mk, hasSideEffect_mk, Kind.children_essence]
  cases k <;> rfl

theorem hasReturnValue_essence (n : Node) : n.essence.hasReturnValue = n.hasReturnValue := by
  obtain ⟨k, o⟩ := n
  rw [essence_mk]
  cases k <;> rfl

theorem isLiteral_essence (n : Node) : n.essence.isLiteral = n.isLiteral := by
  obtain ⟨k, o⟩ := n
  rw [essence_mk]
  cases k <;> rfl

/-! ### Value -/

theorem result_essence (n : Node) : n.essence.result = n.result :=
  observe_essence_always (fun k o => by cases k <;> rfl) (fun _ => result_map _ _) n

theorem isConstant_essence (n : Node) : n.essence.isConstant = n.isConstant :=
  observe_essence_always (fun k o => by cases k <;> rfl)
    (fun _ => isConstant_map _ _ fun c _ => c.result_essence) n

theorem literal?_essence (n : Node) : n.essence.literal? = n.literal? := by
  rw [literal?, literal?, isLiteral_essence, hasSideEffect_essence, isConstant_essence,
    result_essence, returnType_essence]

/-! ### Folding -/

/-- The essence of a tree folds to an equal tree. -/
theorem essence_fold_essence (n : Node) : n.essence.fold.essence = n.fold.essence := by
  induction n using induct with
  | step k o ih =>
    have hessence : essence ⟨k, o⟩ = synthetic (k.essence.map essence) := by
      rw [essence_mk, Kind.essence_map]
    have hliteral : literal? (synthetic (k.essence.map essence)) = literal? ⟨k, o⟩ := by
      rw [← hessence, literal?_essence]
    -- one literal stands for both roots, or folding goes on in the parts of both
    rw [hessence, synthetic, fold_mk, fold_mk, ← synthetic, hliteral]
    split
    · rfl
    · rw [essence_mk, essence_mk, Kind.map_map, Kind.map_map, Kind.map_map]
      calc synthetic (k.essence.map fun c => c.essence.fold.essence).essence
          = synthetic (k.map fun c => c.essence.fold.essence).essence := by
            rw [← Kind.essence_map, Kind.essence_essence]
        _ = synthetic (k.map fun c => c.fold.essence).essence := by rw [Kind.map_congr ih]

/-- Equal trees fold to equal trees. -/
theorem beq_fold {a b : Node} (h : (a == b) = true) : (a.fold == b.fold) = true := by
  rw [beq_iff, ← essence_fold_essence a, ← essence_fold_essence b, beq_iff.1 h]

end Node

end ActionTree
