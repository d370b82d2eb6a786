import ActionTree.Proofs.Constant.Folding
import ActionTree.Proofs.Constant.Known

/-!
# Normal forms of folding

* `Node.IsReducible` - a literal can take the place of the node;
* `Node.IsNormal` - no node of the tree is reducible, compound values included;
* `Node.isNormal_fold` - folded trees are normal;
* `Node.fold_eq_self_iff` - normal trees are those that folding leaves alone.

A rewrite below a node changes neither its value nor its effects, so it makes no ancestor reducible
that was not so before.
-/

namespace ActionTree

namespace Literal

theorem value_ne_unknown (l : Literal) : l.value ≠ .unknown := by
  cases l <;> simp [value, Value.ofInt32, Value.ofUInt32]

/-- Every known value has a literal. -/
theorem isSome_ofValue? (v : Value) (t : StaticType) : (ofValue? v t).isSome = v.isKnown := by
  cases v <;> rfl

end Literal

namespace Node

variable {f : Node → Node}

/-- A node is no literal, does nothing and has a known value. -/
def IsReducible (n : Node) : Prop :=
  n.isLiteral = false ∧ n.hasSideEffect = false ∧ n.result ≠ .unknown

/-- No node of the tree is reducible. -/
def IsNormal (n : Node) : Prop := ∀ c, n.Contains c → ¬ c.IsReducible

/-- A literal can stand for the reducible nodes and for no others. -/
theorem literal?_eq_none_iff {n : Node} : n.literal? = none ↔ ¬ n.IsReducible := by
  constructor
  · intro hnone hreducible
    obtain ⟨hliteral, heffect, hresult⟩ := hreducible
    have hknown : n.result.isKnown = true := by
      rw [← Bool.not_eq_false, Value.isKnown_eq_false_iff]
      exact hresult
    have hsome := Literal.isSome_ofValue? n.result n.returnType
    rw [literal?, hliteral, heffect, isConstant_of_isKnown hknown, if_neg (by simp)] at hnone
    rw [hnone, hknown] at hsome
    cases hsome
  · intro hnot
    rw [Option.eq_none_iff_forall_ne_some]
    intro l hl
    obtain ⟨heffect, -, hvalue⟩ := literal?_eq_some hl
    refine hnot ⟨?_, heffect, ?_⟩
    · rw [← Bool.not_eq_true]
      intro hliteral
      rw [literal?, hliteral] at hl
      cases hl
    · rw [← hvalue]
      exact l.value_ne_unknown

/-- Parts that mean the same leave a node as reducible as it was. -/
theorem isReducible_map {k : Kind Node} (o : Origin)
    (hresult : ∀ c ∈ k.parts, (f c).result = c.result)
    (heffect : ∀ c ∈ k.parts, (f c).hasSideEffect = c.hasSideEffect) :
    IsReducible ⟨k.map f, o⟩ ↔ IsReducible ⟨k, o⟩ := by
  have hliteral : isLiteral ⟨k.map f, o⟩ = isLiteral ⟨k, o⟩ := Kind.isLiteral_map f k
  rw [IsReducible, IsReducible, hliteral, hasSideEffect_map o o heffect, result_map o o hresult]

/-- A tree is normal when its root is not reducible and its parts are normal. -/
theorem isNormal_mk {k : Kind Node} {o : Origin} :
    IsNormal ⟨k, o⟩ ↔ ¬ IsReducible ⟨k, o⟩ ∧ ∀ c ∈ k.parts, c.IsNormal :=
  forall_contains_mk

/-- Folded trees are normal. -/
theorem isNormal_fold (n : Node) : n.fold.IsNormal := by
  induction n using induct with
  | step k o ih =>
    rw [fold_mk]
    split
    · rename_i l hl
      rw [isNormal_mk]
      refine ⟨fun hreducible => ?_, fun c hc => ?_⟩
      · cases hreducible.1
      · simp [Kind.parts, Kind.children, Kind.compound?] at hc
    · rename_i hstays
      rw [isNormal_mk, Kind.parts_map,
        isReducible_map o (fun c _ => c.result_fold) (fun c _ => c.hasSideEffect_fold)]
      refine ⟨literal?_eq_none_iff.1 hstays, fun c hc => ?_⟩
      obtain ⟨d, hd, rfl⟩ := List.mem_map.1 hc
      exact ih d hd

/-- Folding leaves normal trees alone. -/
theorem fold_eq_self {n : Node} : n.IsNormal → n.fold = n := by
  induction n using induct with
  | step k o ih =>
    intro hnormal
    obtain ⟨hroot, hparts⟩ := isNormal_mk.1 hnormal
    have hmap : k.map fold = k := by
      calc k.map fold = k.map (fun c => c) := Kind.map_congr fun c hc => ih c hc (hparts c hc)
        _ = k := k.map_self
    rw [fold_mk, literal?_eq_none_iff.2 hroot]
    show (⟨k.map fold, o⟩ : Node) = ⟨k, o⟩
    rw [hmap]

/-- Normal trees are those that folding leaves alone. -/
theorem fold_eq_self_iff {n : Node} : n.fold = n ↔ n.IsNormal := by
  constructor
  · intro h
    rw [← h]
    exact n.isNormal_fold
  · exact fold_eq_self

/-- **Folding reaches a normal form.**  Under a token that stays live, folding gives a tree without
reducible nodes, which is the old tree when that had none either, and folding it once more changes
nothing. -/
theorem foldUnder_isNormal (raised : Nat → Bool) (live : ∀ i, raised i = false) (n : Node) :
    ∃ m, n.foldUnder raised = some m ∧
      m.IsNormal ∧
      (m = n ↔ n.IsNormal) ∧
      ∀ raised' : Nat → Bool, (∀ i, raised' i = false) → m.foldUnder raised' = some m := by
  refine ⟨n.fold, foldUnder_live live n, n.isNormal_fold, fold_eq_self_iff, ?_⟩
  intro raised' live'
  rw [foldUnder_live live', fold_eq_self n.isNormal_fold]

/-- `_loc1_ *= 2 + 3`, where what the register gets is a call. -/
def scaleByFive : Node :=
  (assign (.register 1) (call .direct this (.static (.ofName "scaled")) [])).setCompound
    ⟨.multiply, binary .add (literal (.int 2)) (literal (.int 3))⟩

/-- The sum stands in the compound value alone, and becomes a literal there. -/
theorem foldUnder_isNormal_scaleByFive :
    (∀ i : Nat, (fun _ => false : Nat → Bool) i = false) ∧
      ∃ m, scaleByFive.foldUnder (fun _ => false) = some m ∧ m.IsNormal ∧ m ≠ scaleByFive ∧
        m.foldUnder (fun _ => false) = some m := by
  have live : ∀ i : Nat, (fun _ => false : Nat → Bool) i = false := fun _ => rfl
  obtain ⟨m, hm, hnormal, hsame, hagain⟩ := foldUnder_isNormal (fun _ => false) live scaleByFive
  refine ⟨live, m, hm, hnormal, fun heq => ?_, hagain _ live⟩
  have hsum : scaleByFive.Contains (binary .add (literal (.int 2)) (literal (.int 3))) :=
    .single (List.mem_append_right _ (List.mem_singleton.2 rfl))
  exact hsame.1 heq _ hsum ⟨rfl, by decide +kernel, by decide +kernel⟩

end Node

end ActionTree
