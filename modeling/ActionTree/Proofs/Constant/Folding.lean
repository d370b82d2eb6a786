import ActionTree.Node.Build
import ActionTree.Node.Fold
import ActionTree.Proofs.Constant.Visited
import ActionTree.Proofs.Double.Exact

/-!
# Folding keeps what a tree means

Folding makes the root a literal of the same value or goes on in the parts.  What a node means is
made from what its parts mean, so both ways keep it.

* `Literal.value_ofValue?` - the literal of a value has that value, in every type context;
* `Node.result_map`, `Node.isConstant_map`, `Node.hasSideEffect_map` - parts that mean the same make
  nodes that mean the same; so it is for the type and the level;
* `Node.result_fold`, `Node.isConstant_fold`, `Node.hasSideEffect_fold`, `Node.hasReturnValue_fold`,
  `Node.origin_fold` - folding keeps them.
-/

namespace ActionTree

/-! ### Literals of values -/

namespace Literal

theorem isWhole_of_integral {x : Double} (h : (x.isInteger && !(x.isZero && x.isNegative)) = true) :
    x.IsWhole := by
  rw [Bool.and_eq_true] at h
  exact ⟨h.1, fun hzero => by simp [hzero] at h⟩

/-- The literal of a number has its value, whether it becomes a word or stays a double. -/
theorem value_ofNumber (x : Double) (t : StaticType) : (ofNumber x t).value = .number x := by
  cases t with
  | int =>
    simp only [ofNumber]
    split
    · rename_i h
      obtain ⟨hwhole, hrange⟩ := Bool.and_eq_true_iff.1 h
      simp only [Bool.and_eq_true, decide_eq_true_eq] at hrange
      obtain ⟨hlow, hhigh⟩ := hrange
      have hword : (Int32.ofInt x.truncate).toInt = x.truncate := by
        rw [Int32.toInt_ofInt]
        exact Int.bmod_eq_of_le hlow (Int.lt_of_le_of_lt hhigh (by decide))
      simp only [value, Value.ofInt32, hword, Double.ofInt_truncate (isWhole_of_integral hwhole)]
    · rfl
  | uint =>
    simp only [ofNumber]
    split
    · rename_i h
      obtain ⟨hwhole, hrange⟩ := Bool.and_eq_true_iff.1 h
      simp only [Bool.and_eq_true, decide_eq_true_eq] at hrange
      obtain ⟨hlow, hhigh⟩ := hrange
      have hword : ((UInt32.ofNat x.truncate.toNat).toNat : Int) = x.truncate := by
        have hbound : x.truncate < 4294967296 := hhigh
        rw [UInt32.toNat_ofNat']
        omega
      simp only [value, Value.ofUInt32, Double.ofNat_eq_ofInt, hword,
        Double.ofInt_truncate (isWhole_of_integral hwhole)]
    · rfl
  | _ => rfl

/-- The literal of a value has that value. -/
theorem value_ofValue? {v : Value} {t : StaticType} {l : Literal} (h : ofValue? v t = some l) :
    l.value = v := by
  cases v with
  | number x =>
    obtain rfl : ofNumber x t = l := by simpa [ofValue?] using h
    exact value_ofNumber x t
  | unknown => simp [ofValue?] at h
  | _ =>
    simp only [ofValue?, Option.some.injEq] at h
    rw [← h, value]

end Literal

namespace Node

variable {f : Node → Node}

/-! ### Nodes with other parts -/

/-- The value of a node is made from the values of its children. -/
theorem result_map {k : Kind Node} (o o' : Origin)
    (h : ∀ c ∈ k.parts, (f c).result = c.result) : result ⟨k.map f, o'⟩ = result ⟨k, o⟩ := by
  cases k with
  | duplicate v | convert t v | coerce t v | unary op v =>
    simp only [Kind.map, result, h v (by simp [Kind.parts, Kind.children])]
  | binary op l r =>
    simp only [Kind.map, result, h l (by simp [Kind.parts, Kind.children]),
      h r (by simp [Kind.parts, Kind.children])]
  | ternary c a b =>
    simp only [Kind.map, result, h c (by simp [Kind.parts, Kind.children]),
      h a (by simp [Kind.parts, Kind.children]), h b (by simp [Kind.parts, Kind.children])]
  | _ => rfl

/-- Whether a value is known depends on that for the children, and on the values of conditions. -/
theorem isConstant_map {k : Kind Node} (o o' : Origin)
    (hresult : ∀ c ∈ k.parts, (f c).result = c.result)
    (h : ∀ c ∈ k.parts, (f c).isConstant = c.isConstant) :
    isConstant ⟨k.map f, o'⟩ = isConstant ⟨k, o⟩ := by
  cases k with
  | duplicate v | convert t v | coerce t v | unary op v =>
    simp only [Kind.map, isConstant, h v (by simp [Kind.parts, Kind.children])]
  | binary op l r =>
    simp only [Kind.map, isConstant, h l (by simp [Kind.parts, Kind.children]),
      h r (by simp [Kind.parts, Kind.children])]
  | ternary c a b =>
    simp only [Kind.map, isConstant, hresult c (by simp [Kind.parts, Kind.children]),
      h c (by simp [Kind.parts, Kind.children]), h a (by simp [Kind.parts, Kind.children]),
      h b (by simp [Kind.parts, Kind.children])]
  | _ => rfl

/-- The type of a value is made from the types of the parts. -/
theorem returnType_map {k : Kind Node} (o o' : Origin)
    (h : ∀ c ∈ k.parts, (f c).returnType = c.returnType) :
    returnType ⟨k.map f, o'⟩ = returnType ⟨k, o⟩ := by
  cases k with
  | duplicate v | returnValue v | assign target v c d =>
    simp only [Kind.map, returnType, h v (by simp [Kind.parts, Kind.children])]
  | binary op l r =>
    simp only [Kind.map, returnType, h l (by simp [Kind.parts, Kind.children]),
      h r (by simp [Kind.parts, Kind.children])]
  | ternary c a b =>
    simp only [Kind.map, returnType, h a (by simp [Kind.parts, Kind.children]),
      h b (by simp [Kind.parts, Kind.children])]
  | _ => rfl

theorem precedence_map {k : Kind Node} (o o' : Origin)
    (h : ∀ c ∈ k.parts, (f c).precedence = c.precedence) :
    precedence ⟨k.map f, o'⟩ = precedence ⟨k, o⟩ := by
  cases k with
  | duplicate v | convert t v | coerce t v =>
    simp only [Kind.map, precedence, h v (by simp [Kind.parts, Kind.children])]
  | _ => rfl

theorem hasSideEffect_map {k : Kind Node} (o o' : Origin)
    (h : ∀ c ∈ k.parts, (f c).hasSideEffect = c.hasSideEffect) :
    hasSideEffect ⟨k.map f, o'⟩ = hasSideEffect ⟨k, o⟩ := by
  rw [hasSideEffect_mk, hasSideEffect_mk, Kind.isEffect_map, Kind.children_map, List.any_map]
  congr 1
  rw [Bool.eq_iff_iff, List.any_eq_true, List.any_eq_true]
  have hchild (c : Node) (hc : c ∈ k.children) : (f c).hasSideEffect = c.hasSideEffect :=
    h c (List.mem_append_left _ hc)
  constructor
  · rintro ⟨c, hc, heffect⟩
    exact ⟨c, hc, by rw [← hchild c hc]; exact heffect⟩
  · rintro ⟨c, hc, heffect⟩
    exact ⟨c, hc, (hchild c hc).trans heffect⟩

/-! ### The literal that stands for a tree -/

/-- A tree that a literal stands for has no effect, a known value, and that of the literal. -/
theorem literal?_eq_some {n : Node} {l : Literal} (h : n.literal? = some l) :
    n.hasSideEffect = false ∧ n.isConstant = true ∧ l.value = n.result := by
  rw [literal?] at h
  split at h
  · cases h
  · rename_i hstays
    simp only [Bool.or_eq_true, Bool.not_eq_true', not_or, Bool.not_eq_true, Bool.not_eq_false]
      at hstays
    exact ⟨hstays.1.2, hstays.2, Literal.value_ofValue? h⟩

/-- Trees of known value leave it. -/
theorem hasReturnValue_of_isConstant {n : Node} (h : n.isConstant = true) :
    n.hasReturnValue = true := by
  obtain ⟨k, o⟩ := n
  cases k <;> first | rfl | simp [isConstant] at h

/-! ### Folding -/

/-- A tree of unknown value keeps its kind. -/
theorem fold_of_not_isConstant {k : Kind Node} {o : Origin} (h : isConstant ⟨k, o⟩ = false) :
    fold ⟨k, o⟩ = ⟨k.map fold, o⟩ := by
  rw [fold_mk, literal?, if_pos (by simp [h])]

/-- Folding keeps the value. -/
theorem result_fold (n : Node) : n.fold.result = n.result := by
  induction n using induct with
  | step k o ih =>
    rw [fold_mk]
    split
    · rename_i l hl
      exact (literal?_eq_some hl).2.2
    · exact result_map o o ih

/-- Folding keeps whether the value is known. -/
theorem isConstant_fold (n : Node) : n.fold.isConstant = n.isConstant := by
  induction n using induct with
  | step k o ih =>
    rw [fold_mk]
    split
    · rename_i l hl
      exact (literal?_eq_some hl).2.1.symm
    · exact isConstant_map o o (fun c _ => c.result_fold) ih

/-- Folding keeps whether the tree has an effect. -/
theorem hasSideEffect_fold (n : Node) : n.fold.hasSideEffect = n.hasSideEffect := by
  induction n using induct with
  | step k o ih =>
    rw [fold_mk]
    split
    · rename_i l hl
      rw [(literal?_eq_some hl).1, hasSideEffect_mk]
      rfl
    · exact hasSideEffect_map o o ih

theorem hasReturnValue_fold (n : Node) : n.fold.hasReturnValue = n.hasReturnValue := by
  obtain ⟨k, o⟩ := n
  rw [fold_mk]
  split
  · rename_i l hl
    rw [hasReturnValue_of_isConstant (literal?_eq_some hl).2.1]
    rfl
  · exact Kind.hasReturnValue_map fold k

theorem origin_fold (n : Node) : n.fold.origin = n.origin := by
  obtain ⟨k, o⟩ := n
  rw [fold_mk]
  split <;> rfl

/-! ### Folding under a token -/

/-- A token that no check finds cancelled lets folding through. -/
theorem foldUnder_live {raised : Nat → Bool} (live : ∀ i, raised i = false) (n : Node) :
    n.foldUnder raised = some n.fold := by
  rw [foldUnder, if_neg]
  simp [live]

/-- **Folding preserves meaning.**  Under a token that stays live, folding gives a tree of the same
value, which is known ahead, has effects and leaves a value exactly when the old one does, and which
comes from the same instruction. -/
theorem foldUnder_preserves (raised : Nat → Bool) (live : ∀ i, raised i = false) (n : Node) :
    ∃ m, n.foldUnder raised = some m ∧
      m.result = n.result ∧
      (m.isCompileTime [] .empty).1 = (n.isCompileTime [] .empty).1 ∧
      m.hasSideEffect = n.hasSideEffect ∧
      m.hasReturnValue = n.hasReturnValue ∧
      m.origin = n.origin := by
  refine ⟨n.fold, foldUnder_live live n, n.result_fold, ?_, n.hasSideEffect_fold,
    n.hasReturnValue_fold, n.origin_fold⟩
  rw [isCompileTime_empty, isCompileTime_empty, isConstant_fold]

/-- `true ? -0 : _loc1_` becomes negative zero, although one branch is unknown. -/
theorem foldUnder_preserves_negativeZero :
    (∀ i : Nat, (fun _ => false : Nat → Bool) i = false) ∧
      ∃ m, foldUnder (fun _ => false)
          (ternary (literal (.boolean true)) (unary .negate (literal (.int 0))) (register 1))
            = some m ∧
        m.result = .number (.zero true) ∧
        (m.isCompileTime [] .empty).1 = true ∧
        m.hasSideEffect = false ∧
        m.hasReturnValue = true ∧
        m.origin = .synthetic := by
  obtain ⟨m, hm, hresult, hknown, heffect, hvalue, horigin⟩ :=
    foldUnder_preserves (fun _ => false) (fun _ => rfl)
      (ternary (literal (.boolean true)) (unary .negate (literal (.int 0))) (register 1))
  exact ⟨fun _ => rfl, m, hm, hresult.trans (by decide +kernel), hknown.trans (by decide +kernel),
    heffect.trans (by decide +kernel), hvalue.trans rfl, horigin.trans rfl⟩

end Node

end ActionTree
