import ActionTree.Node.Steps
import ActionTree.Proofs.Constant.NormalForm
import ActionTree.Proofs.Typing.Elision

/-!
# Folding and inferred types

A literal takes over the type of what it stands for, if that is `Boolean` or a number type: the
value is one of the type, and the type decides the kind of the literal.  So the types that nodes
make from those of their parts stay as they are, and so do the casts around them.

* `Literal.type_ofValue?` - the literal of a value of a scalar type has that type;
* `Node.returnType_map_of_isScalar` - parts of the same scalar types make nodes of the same scalar
  type;
* `Node.returnType_fold` - folding keeps scalar types.
-/

namespace ActionTree

/-- Tells `Boolean` and the number types. -/
def StaticType.isScalar : StaticType → Bool
  | .boolean | .int | .uint | .number => true
  | _ => false

theorem StaticType.isScalar_of_isNumeric {t : StaticType} (h : t.isNumeric = true) :
    t.isScalar = true := by
  cases t with
  | int | uint | number => rfl
  | _ => cases h

/-! ### Literals -/

namespace Literal

/-- Whole doubles can become word literals. -/
theorem integral_of_isWhole {x : Double} (h : x.IsWhole) :
    (x.isInteger && !(x.isZero && x.isNegative)) = true := by
  obtain ⟨hinteger, hzero⟩ := h
  rw [hinteger, Bool.true_and, Bool.not_eq_true', ← Bool.not_eq_true, Bool.and_eq_true]
  exact hzero

/-- A value of a scalar type has a literal of that type. -/
theorem type_ofValue? {v : Value} {t : StaticType} {l : Literal} (ht : t.isScalar = true)
    (hv : v.HasType t) (h : ofValue? v t = some l) : l.type = t := by
  cases t with
  | boolean =>
    obtain ⟨b, rfl⟩ := hv
    cases h
    rfl
  | number =>
    obtain ⟨x, rfl⟩ := hv
    cases h
    rfl
  | int =>
    obtain ⟨x, rfl, hwhole, hlow, hhigh⟩ := hv
    have hrange : Int32.minValue.toInt ≤ x.truncate ∧ x.truncate ≤ Int32.maxValue.toInt :=
      ⟨hlow, Int.le_of_lt_add_one hhigh⟩
    have hword : ofNumber x .int = .int (Int32.ofInt x.truncate) := by
      rw [ofNumber, integral_of_isWhole hwhole, Bool.true_and]
      exact if_pos (by simpa using hrange)
    obtain rfl : ofNumber x .int = l := Option.some.inj h
    rw [hword]
    rfl
  | uint =>
    obtain ⟨x, rfl, hwhole, hlow, hhigh⟩ := hv
    have hrange : 0 ≤ x.truncate ∧ x.truncate < UInt32.size := ⟨hlow, hhigh⟩
    have hword : ofNumber x .uint = .uint (UInt32.ofNat x.truncate.toNat) := by
      rw [ofNumber, integral_of_isWhole hwhole, Bool.true_and]
      exact if_pos (by simpa using hrange)
    obtain rfl : ofNumber x .uint = l := Option.some.inj h
    rw [hword]
    rfl
  | _ => cases ht

end Literal

namespace Node

variable {f : Node → Node}

/-- The literal that stands for a tree of a scalar type has that type. -/
theorem type_literal? {n : Node} {l : Literal} (ht : n.returnType.isScalar = true)
    (h : n.literal? = some l) : l.type = n.returnType := by
  have hknown : n.result.isKnown = true := by
    obtain ⟨-, -, hvalue⟩ := literal?_eq_some h
    rw [← hvalue, ← Bool.not_eq_false, Value.isKnown_eq_false_iff]
    exact l.value_ne_unknown
  have hvalue : n.result.HasType n.returnType :=
    hasType_result hknown (by rintro hstring; rw [hstring] at ht; cases ht)
  rw [literal?] at h
  split at h
  · cases h
  · exact Literal.type_ofValue? ht hvalue h

/-! ### Nodes with other parts -/

/-- A scalar sum has number types on both sides. -/
theorem isNumeric_of_binaryType_add {s t : StaticType}
    (h : (binaryType .add s t).isScalar = true) : s.isNumeric = true ∧ t.isNumeric = true := by
  rcases binaryType_add s t with htype | ⟨-, hs, ht⟩ | htype
  · rw [htype] at h
    cases h
  · exact ⟨hs, ht⟩
  · rw [htype] at h
    cases h

/-- A scalar type that two sides agree on is that of both. -/
theorem isScalar_of_agree {s t : StaticType}
    (h : (if s = t then s else .any).isScalar = true) : s = t ∧ s.isScalar = true := by
  split at h
  · exact ⟨‹_›, h⟩
  · cases h

theorem returnType_map_agree {s t s' t' : StaticType}
    (h : (if s = t then s else .any).isScalar = true)
    (hs : s.isScalar = true → s' = s) (ht : t.isScalar = true → t' = t) :
    (if s' = t' then s' else .any) = if s = t then s else .any := by
  obtain ⟨rfl, hscalar⟩ := isScalar_of_agree h
  rw [hs hscalar, ht hscalar]

/-- A scalar type of a node is made from scalar types of its parts alone. -/
theorem returnType_map_of_isScalar {k : Kind Node} (o o' : Origin)
    (hscalar : (returnType ⟨k, o⟩).isScalar = true)
    (h : ∀ c ∈ k.parts, c.returnType.isScalar = true → (f c).returnType = c.returnType) :
    returnType ⟨k.map f, o'⟩ = returnType ⟨k, o⟩ := by
  cases k with
  | duplicate v | returnValue v => exact h v (by simp [Kind.parts, Kind.children]) hscalar
  | assign target v c d => exact h v (by simp [Kind.parts, Kind.children]) hscalar
  | binary op l r =>
    have hl := h l (by simp [Kind.parts, Kind.children])
    have hr := h r (by simp [Kind.parts, Kind.children])
    cases op with
    | add =>
      obtain ⟨hleft, hright⟩ := isNumeric_of_binaryType_add hscalar
      simp only [Kind.map, returnType, hl (StaticType.isScalar_of_isNumeric hleft),
        hr (StaticType.isScalar_of_isNumeric hright)]
    | logicalAnd | logicalOr => exact returnType_map_agree hscalar hl hr
    | _ => rfl
  | ternary c a b =>
    exact returnType_map_agree hscalar (h a (by simp [Kind.parts, Kind.children]))
      (h b (by simp [Kind.parts, Kind.children]))
  | _ => rfl

/-! ### Folding -/

/-- Folding keeps scalar types. -/
theorem returnType_fold {n : Node} (hscalar : n.returnType.isScalar = true) :
    n.fold.returnType = n.returnType := by
  induction n using induct with
  | step k o ih =>
    rw [fold_mk]
    split
    · rename_i l hl
      exact type_literal? hscalar hl
    · exact returnType_map_of_isScalar o o hscalar ih

/-- So whether a cast around the tree is written stays as it was. -/
theorem showsConversion_fold {n : Node} (hscalar : n.returnType.isScalar = true)
    (target : StaticType) : showsConversion target n.fold = showsConversion target n := by
  rw [showsConversion, showsConversion, returnType_fold hscalar]

/-- **Folding keeps the types that decide casts.**  Under a token that stays live, folding a tree of
a scalar type gives one of the same type, and a cast around the tree becomes a literal or a cast
around the folded tree, which is written exactly when the old one is. -/
theorem foldUnder_returnType (raised : Nat → Bool) (live : ∀ i, raised i = false) (n : Node)
    (hscalar : n.returnType.isScalar = true) :
    ∃ m, n.foldUnder raised = some m ∧
      m.returnType = n.returnType ∧
      ∀ (target : StaticType) (o : Origin), showsConversion target m = showsConversion target n ∧
        ∃ c, foldUnder raised ⟨.convert target n, o⟩ = some c ∧
          (c.isLiteral = true ∨ c = ⟨.convert target m, o⟩) := by
  refine ⟨n.fold, foldUnder_live live n, returnType_fold hscalar, fun target o => ?_⟩
  refine ⟨showsConversion_fold hscalar target, _, foldUnder_live live _, ?_⟩
  rw [fold_mk]
  split
  · exact .inl rfl
  · exact .inr rfl

/-- `_loc1_ + 2 * 3`, where the register holds an `int`. -/
def sumWithProduct : Node :=
  binary .add (register 1 .int) (binary .multiply (literal (.int 2)) (literal (.int 3)))

/-- The product becomes the number 6, and the sum a sum of numbers still: `Boolean(_loc1_ + 6)`. -/
theorem foldUnder_returnType_sumWithProduct :
    (∀ i : Nat, (fun _ => false : Nat → Bool) i = false) ∧
      sumWithProduct.returnType.isScalar = true ∧
      ∃ m, sumWithProduct.foldUnder (fun _ => false) = some m ∧ m.returnType = .number ∧
        showsConversion .boolean m = true ∧ showsConversion .int m = false ∧
        m.source .empty = "_loc1_ + 6" := by
  have live : ∀ i : Nat, (fun _ => false : Nat → Bool) i = false := fun _ => rfl
  have hscalar : sumWithProduct.returnType.isScalar = true := rfl
  obtain ⟨m, hm, htype, hcasts⟩ :=
    foldUnder_returnType (fun _ => false) live sumWithProduct hscalar
  have hfold : m = sumWithProduct.fold := by
    rw [foldUnder_live live] at hm
    exact (Option.some.inj hm).symm
  refine ⟨live, hscalar, m, hm, htype.trans rfl, (hcasts .boolean .synthetic).1.trans rfl,
    (hcasts .int .synthetic).1.trans rfl, ?_⟩
  rw [hfold]
  decide +kernel

end Node

end ActionTree
