import ActionTree.Node.Build
import ActionTree.Proofs.Constant.Known
import ActionTree.Proofs.Double.Exact

/-!
# The algebra of conversions

A word is a number that its own conversion keeps, so conversions to words absorb each other, and
the operators on words are conversions where they change no bit.

* `Value.toInt32_ofInt32`, `Value.toUInt32_ofUInt32` and siblings - words read as words;
* `Value.convert_convert`, `Value.convert_uint_int`, `Value.convert_int_uint` - one conversion after
  another;
* `Value.coerce_eq_convert` - the coercions that are conversions;
* `Value.apply_bitOr_zero`, `Value.apply_bitNot_bitNot` and siblings - the operators that are;
* `Node.result_conversions` - what this says about trees.
-/

namespace ActionTree

namespace Value

/-! ### Words read as words -/

theorem toInt32_ofInt32 (i : Int32) : (ofInt32 i).toInt32 = i := by
  have hlow := i.le_toInt
  have hhigh := i.toInt_lt
  obtain ⟨-, htruncate⟩ := Double.isWhole_ofInt (i := i.toInt) (by omega)
  apply Int32.toInt_inj.1
  show (Double.ofInt i.toInt).toInt32.toInt = i.toInt
  rw [Double.toInt_toInt32, htruncate]
  exact Int.bmod_eq_of_le hlow hhigh

theorem toUInt32_ofUInt32 (u : UInt32) : (ofUInt32 u).toUInt32 = u := by
  have hhigh := u.toNat_lt
  obtain ⟨-, htruncate⟩ := Double.isWhole_ofInt (i := (u.toNat : Int)) (by omega)
  have hword := Double.toNat_toUInt32 (.ofInt u.toNat)
  rw [htruncate] at hword
  apply UInt32.toNat_inj.1
  show (Double.ofNat u.toNat).toUInt32.toNat = u.toNat
  rw [Double.ofNat_eq_ofInt]
  omega

/-- The two words of a value have the same bits. -/
theorem toInt32_eq (v : Value) : v.toInt32 = v.toUInt32.toInt32 := rfl

theorem toUInt32_eq (v : Value) : v.toUInt32 = v.toInt32.toUInt32 := by
  rw [toInt32_eq, UInt32.toUInt32_toInt32]

/-- Reading the other word of a value as a number keeps the word. -/
theorem toInt32_ofUInt32 (v : Value) : (ofUInt32 v.toUInt32).toInt32 = v.toInt32 := by
  rw [toInt32_eq, toUInt32_ofUInt32, toInt32_eq]

theorem toUInt32_ofInt32 (v : Value) : (ofInt32 v.toInt32).toUInt32 = v.toUInt32 := by
  rw [toUInt32_eq, toInt32_ofInt32, ← toUInt32_eq]

/-! ### One conversion after another -/

variable {v : Value}

theorem convert_int (hv : v.isKnown = true) : v.convert .int = ofInt32 v.toInt32 := if_pos hv

theorem convert_uint (hv : v.isKnown = true) : v.convert .uint = ofUInt32 v.toUInt32 := if_pos hv

theorem convert_object (hv : v.isKnown = true) : v.convert .object = v := if_pos hv

/-- Converting again changes nothing. -/
theorem convert_convert (hv : v.isKnown = true) {t : StaticType} (ht : t.isPrimitive = true) :
    (v.convert t).convert t = v.convert t := by
  cases t with
  | int =>
    rw [convert_int hv, convert_int rfl, toInt32_ofInt32]
  | uint =>
    rw [convert_uint hv, convert_uint rfl, toUInt32_ofUInt32]
  | object =>
    rw [convert_object hv, convert_object hv]
  | boolean =>
    rw [show v.convert .boolean = .boolean v.toBoolean from if_pos hv]
    rfl
  | number =>
    rw [show v.convert .number = .number v.toNumber from if_pos hv]
    rfl
  | string =>
    rw [show v.convert .string = .string v.toText from if_pos hv]
    rfl
  | any | «class» q => cases ht

theorem convert_uint_int (hv : v.isKnown = true) :
    (v.convert .uint).convert .int = v.convert .int := by
  rw [convert_uint hv, convert_int rfl, convert_int hv, toInt32_ofUInt32]

theorem convert_int_uint (hv : v.isKnown = true) :
    (v.convert .int).convert .uint = v.convert .uint := by
  rw [convert_int hv, convert_uint rfl, convert_uint hv, toUInt32_ofInt32]

/-- To a primitive type other than `String` a value is coerced as it is converted. -/
theorem coerce_eq_convert (v : Value) {t : StaticType} (ht : t.isPrimitive = true)
    (hstring : t ≠ .string) : v.coerce t = v.convert t := by
  cases t with
  | string => exact absurd rfl hstring
  | any | «class» q => cases ht
  | boolean | int | uint | number | object => rfl

/-! ### Operators on words -/

theorem toInt32_zero (s : Bool) : (number (.zero s)).toInt32 = 0 := by
  cases s <;> decide +kernel

theorem shiftDistance_zero (s : Bool) : shiftDistance (number (.zero s)) = 0 := by
  cases s <;> decide +kernel

theorem apply_bitOr_zero (hv : v.isKnown = true) (s : Bool) :
    BinaryOperator.bitOr.apply v (number (.zero s)) = v.convert .int := by
  have happly : BinaryOperator.bitOr.apply v (number (.zero s)) =
      ofInt32 (v.toInt32 ||| (number (.zero s)).toInt32) := if_pos (by rw [hv]; rfl)
  rw [happly, toInt32_zero, Int32.or_zero, convert_int hv]

theorem apply_rightShift_zero (hv : v.isKnown = true) (s : Bool) :
    BinaryOperator.rightShift.apply v (number (.zero s)) = v.convert .int := by
  have happly : BinaryOperator.rightShift.apply v (number (.zero s)) =
      ofInt32 (v.toInt32 >>> Int32.ofNat (shiftDistance (number (.zero s)))) :=
    if_pos (by rw [hv]; rfl)
  have hshift : v.toInt32 >>> Int32.ofNat 0 = v.toInt32 := Int32.shiftRight_zero
  rw [happly, shiftDistance_zero, hshift, convert_int hv]

theorem apply_unsignedRightShift_zero (hv : v.isKnown = true) (s : Bool) :
    BinaryOperator.unsignedRightShift.apply v (number (.zero s)) = v.convert .uint := by
  have happly : BinaryOperator.unsignedRightShift.apply v (number (.zero s)) =
      ofUInt32 (v.toUInt32 >>> UInt32.ofNat (shiftDistance (number (.zero s)))) :=
    if_pos (by rw [hv]; rfl)
  have hshift : v.toUInt32 >>> UInt32.ofNat 0 = v.toUInt32 := UInt32.shiftRight_zero
  rw [happly, shiftDistance_zero, hshift, convert_uint hv]

theorem apply_bitNot_bitNot (hv : v.isKnown = true) :
    UnaryOperator.bitNot.apply (UnaryOperator.bitNot.apply v) = v.convert .int := by
  have happly {w : Value} (hw : w.isKnown = true) :
      UnaryOperator.bitNot.apply w = ofInt32 (~~~w.toInt32) := if_pos hw
  rw [happly hv, happly rfl, toInt32_ofInt32, Int32.not_not, convert_int hv]

end Value

/-- **The algebra of conversions.**  Where the value of `v` is known and the target is one of the
types `Boolean`, `int`, `uint`, `Number`, `String` and `Object`, a conversion has a known value, and
converting again to the same target changes nothing; a coercion gives the same, but for `String`.
A conversion to one word type hides an earlier one to the other.  `v | 0`, `v >> 0` and `~~v` are
the conversion to `int`, and `v >>> 0` is the one to `uint`. -/
theorem Node.result_conversions {v : Node} (hv : v.result.isKnown = true) (o o' : Origin) :
    (∀ t : StaticType, t.isPrimitive = true →
      (result ⟨.convert t v, o⟩).isKnown = true ∧
      result ⟨.convert t ⟨.convert t v, o⟩, o'⟩ = result ⟨.convert t v, o⟩ ∧
      (t ≠ .string → result ⟨.coerce t v, o⟩ = result ⟨.convert t v, o⟩)) ∧
    result ⟨.convert .int ⟨.convert .uint v, o⟩, o'⟩ = result ⟨.convert .int v, o⟩ ∧
    result ⟨.convert .uint ⟨.convert .int v, o⟩, o'⟩ = result ⟨.convert .uint v, o⟩ ∧
    (∀ (z : Node) (s : Bool), z.result = .number (.zero s) →
      result ⟨.binary .bitOr v z, o⟩ = result ⟨.convert .int v, o⟩ ∧
      result ⟨.binary .rightShift v z, o⟩ = result ⟨.convert .int v, o⟩ ∧
      result ⟨.binary .unsignedRightShift v z, o⟩ = result ⟨.convert .uint v, o⟩) ∧
    result ⟨.unary .bitNot ⟨.unary .bitNot v, o⟩, o'⟩ = result ⟨.convert .int v, o⟩ := by
  simp only [result]
  refine ⟨fun t ht => ⟨?_, Value.convert_convert hv ht, v.result.coerce_eq_convert ht⟩,
    Value.convert_uint_int hv, Value.convert_int_uint hv, fun z s hz => ?_,
    Value.apply_bitNot_bitNot hv⟩
  · rw [Value.isKnown_convert, hv, ht]
    rfl
  · rw [hz]
    exact ⟨Value.apply_bitOr_zero hv s, Value.apply_rightShift_zero hv s,
      Value.apply_unsignedRightShift_zero hv s⟩

/-- A string that spells a number past the words, with a fraction. -/
def Node.pastWords : Node := literal (.string " -4294967298.75 ")

theorem Node.result_conversions_pastWords :
    pastWords.result.isKnown = true ∧ StaticType.isPrimitive .int = true ∧
      StaticType.int ≠ .string ∧ (literal (.int 0)).result = .number (.zero false) ∧
        (convert pastWords .int).result = .ofInt32 (-2) ∧
          (binary .unsignedRightShift pastWords (literal (.int 0))).result =
            .ofUInt32 4294967294 := by
  have hzero : (literal (.int 0)).result = .number (.zero false) := by decide +kernel
  have hint : (convert pastWords .int).result = .ofInt32 (-2) := by decide +kernel
  have huint : (convert pastWords .uint).result = .ofUInt32 4294967294 := by decide +kernel
  obtain ⟨-, -, -, hoperators, -⟩ :=
    Node.result_conversions (v := pastWords) rfl .synthetic .synthetic
  exact ⟨rfl, rfl, by decide, hzero, hint, (hoperators _ _ hzero).2.2.trans huint⟩

end ActionTree
