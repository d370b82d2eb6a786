import ActionTree.Node.Attributes
import ActionTree.Proofs.Double.Exact
import ActionTree.Value.Operation
import Mathlib.Algebra.Group.Int.Defs

/-!
# Values of a static type

* `Value.HasType` - a value is one that a static type promises;
* `Value.hasType_convert`, `Value.hasType_coerce` - what a conversion gives has the target type;
* `BinaryOperator.hasType_apply`, `UnaryOperator.hasType_apply` - so have the results of operators
  whose type does not depend on the operands;
* `BinaryOperator.apply_add` - a sum is a string exactly when one of its operands is.
-/

namespace ActionTree

/-- A value is one that the type promises.  A string may be `null`; objects, classes and the untyped
`*` promise nothing. -/
def Value.HasType (v : Value) : StaticType → Prop
  | .boolean => ∃ b, v = .boolean b
  | .number => ∃ x, v = .number x
  | .int => ∃ x, v = .number x ∧ x.IsWhole ∧ -2 ^ 31 ≤ x.truncate ∧ x.truncate < 2 ^ 31
  | .uint => ∃ x, v = .number x ∧ x.IsWhole ∧ 0 ≤ x.truncate ∧ x.truncate < 2 ^ 32
  | .string => (∃ s, v = .string s) ∨ v = .null
  | .object | .any | .class _ => True

/-- Tells strings. -/
def Value.isText : Value → Bool
  | .string _ => true
  | _ => false

namespace Value

/-! ### Words -/

/-- A signed word is a whole number of the type `int`. -/
theorem hasType_ofInt32 (i : Int32) : (ofInt32 i).HasType .int := by
  have hlow := i.le_toInt
  have hhigh := i.toInt_lt
  obtain ⟨hwhole, htruncate⟩ := Double.isWhole_ofInt (i := i.toInt) (by omega)
  exact ⟨_, rfl, hwhole, by rw [htruncate]; exact hlow, by rw [htruncate]; exact hhigh⟩

/-- An unsigned word is a whole number of the type `uint`. -/
theorem hasType_ofUInt32 (i : UInt32) : (ofUInt32 i).HasType .uint := by
  have hhigh := i.toNat_lt
  obtain ⟨hwhole, htruncate⟩ := Double.isWhole_ofInt (i := (i.toNat : Int)) (by omega)
  rw [ofUInt32, Double.ofNat_eq_ofInt]
  exact ⟨_, rfl, hwhole, by omega, by omega⟩

/-- Reading a value as a signed word keeps exactly the whole numbers of the type `int`. -/
theorem ofInt32_toInt32_eq_iff {v : Value} : ofInt32 v.toInt32 = v ↔ v.HasType .int := by
  constructor
  · intro h
    have hword := hasType_ofInt32 v.toInt32
    rwa [h] at hword
  · rintro ⟨x, rfl, hwhole, hlow, hhigh⟩
    have hword : x.toInt32.toInt = x.truncate := by
      rw [Double.toInt_toInt32]
      exact Int.bmod_eq_of_le hlow hhigh
    rw [ofInt32, toInt32, toNumber, hword, Double.ofInt_truncate hwhole]

/-- Reading a value as an unsigned word keeps exactly the whole numbers of the type `uint`. -/
theorem ofUInt32_toUInt32_eq_iff {v : Value} : ofUInt32 v.toUInt32 = v ↔ v.HasType .uint := by
  constructor
  · intro h
    have hword := hasType_ofUInt32 v.toUInt32
    rwa [h] at hword
  · rintro ⟨x, rfl, hwhole, hlow, hhigh⟩
    have hword : (x.toUInt32.toNat : Int) = x.truncate := by
      rw [Double.toNat_toUInt32]
      omega
    rw [ofUInt32, toUInt32, toNumber, Double.ofNat_eq_ofInt, hword, Double.ofInt_truncate hwhole]

/-- Numbers of the two word types are numbers. -/
theorem HasType.toNumber {v : Value} {t : StaticType} (ht : t.isNumeric = true)
    (h : v.HasType t) : ∃ x, v = .number x := by
  cases t with
  | number => exact h
  | int | uint =>
    obtain ⟨x, hx, -⟩ := h
    exact ⟨x, hx⟩
  | _ => cases ht

/-! ### Conversions -/

/-- A value that is known only under a guard. -/
theorem isKnown_of_guard {guard : Bool} {v : Value}
    (h : (if guard then v else .unknown).isKnown = true) : guard = true := by
  cases guard with
  | true => rfl
  | false => cases h

/-- Only known values have known conversions. -/
theorem isKnown_of_convert {v : Value} {t : StaticType} (h : (v.convert t).isKnown = true) :
    v.isKnown = true :=
  isKnown_of_guard h

theorem hasType_convert {v : Value} {t : StaticType} (h : (v.convert t).isKnown = true) :
    (v.convert t).HasType t := by
  have hv := isKnown_of_convert h
  cases t with
  | boolean | number => simp [convert, hv, HasType]
  | int => simpa [convert, hv] using hasType_ofInt32 v.toInt32
  | uint => simpa [convert, hv] using hasType_ofUInt32 v.toUInt32
  | string => simp [convert, hv, HasType]
  | object | any | «class» q => trivial

theorem hasType_coerce {v : Value} {t : StaticType} (h : (v.coerce t).isKnown = true) :
    (v.coerce t).HasType t := by
  have hv : v.isKnown = true := isKnown_of_guard h
  cases t with
  | boolean | number => simp [coerce, hv, HasType]
  | int => simpa [coerce, hv] using hasType_ofInt32 v.toInt32
  | uint => simpa [coerce, hv] using hasType_ofUInt32 v.toUInt32
  | string => cases v <;> simp [coerce, isKnown, HasType] at hv ⊢
  | object | any | «class» q => trivial

end Value

/-! ### Operators -/

theorem UnaryOperator.hasType_apply (op : UnaryOperator) {v : Value}
    (h : (op.apply v).isKnown = true) : (op.apply v).HasType (Node.unaryType op) := by
  have hv : v.isKnown = true := Value.isKnown_of_guard h
  cases op with
  | bitNot =>
    simp only [apply, hv, if_true]
    exact Value.hasType_ofInt32 _
  | void => trivial
  | _ => simp [apply, hv, Node.unaryType, Value.HasType]

namespace BinaryOperator

/-- Operators whose type depends on the operands. -/
def isOverloaded : BinaryOperator → Bool
  | .add | .logicalAnd | .logicalOr => true
  | _ => false

theorem isKnown_of_apply {op : BinaryOperator} {a b : Value} (h : (op.apply a b).isKnown = true) :
    a.isKnown = true ∧ b.isKnown = true := by
  rw [← Bool.and_eq_true]
  exact Value.isKnown_of_guard h

/-- What the other operators give has their type, whatever the types of the operands are. -/
theorem hasType_apply {op : BinaryOperator} (hop : op.isOverloaded = false) {a b : Value}
    (h : (op.apply a b).isKnown = true) (s t : StaticType) :
    (op.apply a b).HasType (Node.binaryType op s t) := by
  obtain ⟨ha, hb⟩ := isKnown_of_apply h
  cases op with
  | add | logicalAnd | logicalOr => cases hop
  | bitAnd | bitOr | bitXor | leftShift | rightShift =>
    simp only [apply, ha, hb, Bool.and_self, if_true, Node.binaryType]
    exact Value.hasType_ofInt32 _
  | unsignedRightShift =>
    simp only [apply, ha, hb, Bool.and_self, if_true, Node.binaryType]
    exact Value.hasType_ofUInt32 _
  | «in» | instanceOf | is | as =>
    simp only [apply, ha, hb, Bool.and_self, if_true] at h
    cases h
  | _ => simp [apply, ha, hb, Node.binaryType, Value.HasType]

/-- A logical operation gives one of its operands, as the left one decides. -/
theorem apply_logicalAnd {a b : Value} (h : (logicalAnd.apply a b).isKnown = true) :
    logicalAnd.apply a b = if a.toBoolean then b else a := by
  obtain ⟨ha, hb⟩ := isKnown_of_apply h
  simp only [apply, ha, hb, Bool.and_self, if_true]

theorem apply_logicalOr {a b : Value} (h : (logicalOr.apply a b).isKnown = true) :
    logicalOr.apply a b = if a.toBoolean then a else b := by
  obtain ⟨ha, hb⟩ := isKnown_of_apply h
  simp only [apply, ha, hb, Bool.and_self, if_true]

/-- A sum with a string is a string; other sums are numbers. -/
theorem apply_add {a b : Value} (h : (add.apply a b).isKnown = true) :
    if a.isText || b.isText then ∃ s, add.apply a b = .string s
    else ∃ x, add.apply a b = .number x := by
  obtain ⟨ha, hb⟩ := isKnown_of_apply h
  cases a <;> cases b <;> simp [apply, Value.isText, Value.isKnown] at ha hb ⊢

end BinaryOperator

end ActionTree
