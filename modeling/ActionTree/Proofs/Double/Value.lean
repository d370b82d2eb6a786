import ActionTree.Proofs.Double.Exact
import Mathlib.Data.Int.ModEq
import Mathlib.Data.Rat.Floor
import Mathlib.Tactic.FieldSimp

/-!
# The number that a double stands for

The 64 bits of a double hold its sign, 11 bits of exponent and 52 bits of fraction.  They spell a
rational number unless the exponent has all its bits set.

* `Double.fieldsMagnitude`, `Double.value?` - the rational number of a double, read off its bits;
* `Double.value?_finite` - a finite double stands for its number of units;
* `integerPart` - a rational number without its fraction, and `Double.truncate_eq`;
* `Double.words_iff` - the words of a double are its integer part modulo `2 ^ 32`.
-/

namespace ActionTree

/-! ### Integer parts -/

/-- The integer part of a rational number: the nearest integer on the side of zero. -/
def integerPart (q : ℚ) : ℤ := if 0 ≤ q then ⌊q⌋ else ⌈q⌉

theorem integerPart_neg (q : ℚ) : integerPart (-q) = -integerPart q := by
  rcases lt_trichotomy q 0 with h | h | h
  · rw [integerPart, integerPart, if_pos (by linarith), if_neg (by linarith), Int.floor_neg]
  · subst h
    rfl
  · rw [integerPart, integerPart, if_neg (by linarith), if_pos h.le, Int.ceil_neg]

theorem integerPart_div (a b : ℕ) : integerPart ((a : ℚ) / b) = (a / b : ℕ) := by
  rw [integerPart, if_pos (by positivity)]
  exact Rat.floor_natCast_div_natCast a b

namespace Double

/-! ### Fields -/

/-- The 11 bits of exponent. -/
def exponentField (bits : ℕ) : ℕ := bits / 2 ^ 52 % 2 ^ 11

/-- The 52 bits of fraction. -/
def fractionField (bits : ℕ) : ℕ := bits % 2 ^ 52

/-- The magnitude that an exponent and a fraction spell.  The fraction follows a bit that is set,
unless the exponent is zero, which otherwise counts as one. -/
def fieldsMagnitude (exponent fraction : ℕ) : ℚ :=
  if exponent = 0 then fraction * 2 ^ (-1074 : ℤ)
  else (2 ^ 52 + fraction) * 2 ^ ((exponent : ℤ) - 1075)

/-- The rational number that a double stands for; infinities and NaN stand for none. -/
def value? (x : Double) : Option ℚ :=
  let magnitude := fieldsMagnitude (exponentField x.toBits) (fractionField x.toBits)
  if exponentField x.toBits = 2047 then none
  else some (if signBit ≤ x.toBits then -magnitude else magnitude)

theorem signBit_eq : signBit = 2 ^ 63 := rfl

/-- The rank of a finite double holds its exponent and its fraction. -/
theorem fields_finite (s : Bool) (r : Fin rankLimit) :
    exponentField (toBits (.finite s r)) = r / 2 ^ 52 ∧
      fractionField (toBits (.finite s r)) = r % 2 ^ 52 ∧
        (signBit ≤ toBits (.finite s r) ↔ s = true) := by
  have hr : r.val < 2047 * 2 ^ 52 := r.isLt
  rw [exponentField, fractionField, toBits, signBit_eq]
  cases s with
  | false =>
    simp only [Bool.false_eq_true, if_false, iff_false, not_le]
    omega
  | true =>
    simp only [if_true, iff_true]
    omega

theorem fieldsMagnitude_eq (r : ℕ) :
    fieldsMagnitude (r / 2 ^ 52) (r % 2 ^ 52) = (rankUnits r : ℚ) / one := by
  rw [fieldsMagnitude, rankUnits_eq, one_eq]
  by_cases h : r < 2 ^ 52
  · rw [if_pos (by omega), if_pos h, Nat.mod_eq_of_lt h, zpow_neg, zpow_ofNat, div_eq_mul_inv,
      Nat.cast_pow, Nat.cast_ofNat]
  · obtain ⟨e, he⟩ : ∃ e, r / 2 ^ 52 = e + 1 := ⟨r / 2 ^ 52 - 1, by omega⟩
    have hexponent : ((e + 1 : ℕ) : ℤ) - 1075 = (e : ℤ) - (1074 : ℕ) := by omega
    rw [if_neg (by omega), if_neg h, he, Nat.add_sub_cancel, hexponent,
      zpow_sub₀ two_ne_zero, zpow_natCast, zpow_natCast, Nat.cast_mul, Nat.cast_add, Nat.cast_pow,
      Nat.cast_pow, Nat.cast_pow, Nat.cast_ofNat, mul_div_assoc]

/-- A finite double stands for its number of units of `2 ^ -1074`. -/
theorem value?_finite (s : Bool) (r : Fin rankLimit) :
    value? (.finite s r) = some ((signedUnits s r : ℚ) / one) := by
  obtain ⟨hexponent, hfraction, hsign⟩ := fields_finite s r
  have hr : r.val < 2047 * 2 ^ 52 := r.isLt
  simp only [value?]
  rw [hexponent, hfraction, if_neg (by omega), fieldsMagnitude_eq]
  simp only [hsign]
  cases s with
  | false => rfl
  | true =>
    rw [if_pos rfl, signedUnits, if_pos rfl, Int.cast_neg, Int.cast_natCast, neg_div]

theorem truncate_eq (s : Bool) (r : Fin rankLimit) :
    truncate (.finite s r) = integerPart ((signedUnits s r : ℚ) / one) := by
  cases s with
  | false =>
    show ((rankUnits r / one : ℕ) : ℤ) = integerPart (((rankUnits r : ℤ) : ℚ) / one)
    rw [Int.cast_natCast, integerPart_div]
  | true =>
    show -((rankUnits r / one : ℕ) : ℤ) = integerPart (((-rankUnits r : ℤ) : ℚ) / one)
    rw [Int.cast_neg, Int.cast_natCast, neg_div, integerPart_neg, integerPart_div]

/-! ### Words -/

/-- Of `m` consecutive integers just one lies in a given class modulo `m`. -/
theorem eq_iff_modEq {m low w a : ℤ} (hlow : low ≤ w) (hhigh : w < low + m)
    (hclass : w ≡ a [ZMOD m]) (u : ℤ) : w = u ↔ low ≤ u ∧ u < low + m ∧ u ≡ a [ZMOD m] := by
  constructor
  · rintro rfl
    exact ⟨hlow, hhigh, hclass⟩
  · rintro ⟨hulow, huhigh, huclass⟩
    have hdvd : m ∣ u - w := (hclass.trans huclass.symm).dvd
    have hnear : |u - w| < m := abs_lt.2 ⟨by linarith, by linarith⟩
    have hzero : u - w = 0 := Int.eq_zero_of_abs_lt_dvd hdvd hnear
    omega

theorem toUInt32_eq_iff (x : Double) (u : ℤ) :
    x.toUInt32.toNat = u ↔ 0 ≤ u ∧ u < 2 ^ 32 ∧ u ≡ x.truncate [ZMOD 2 ^ 32] := by
  have hword := toNat_toUInt32 x
  have hclass : (x.toUInt32.toNat : ℤ) ≡ x.truncate [ZMOD 2 ^ 32] := by
    rw [hword]
    exact Int.mod_modEq _ _
  have hhigh : (x.toUInt32.toNat : ℤ) < 0 + 2 ^ 32 := by omega
  exact eq_iff_modEq (Int.natCast_nonneg _) hhigh hclass u

theorem toInt32_eq_iff (x : Double) (i : ℤ) :
    x.toInt32.toInt = i ↔ -2 ^ 31 ≤ i ∧ i < 2 ^ 31 ∧ i ≡ x.truncate [ZMOD 2 ^ 32] := by
  have hclass : x.toInt32.toInt ≡ x.truncate [ZMOD 2 ^ 32] := by
    rw [toInt_toInt32]
    exact Int.bmod_emod
  exact eq_iff_modEq x.toInt32.le_toInt x.toInt32.toInt_lt hclass i

/-- **The words of a double.**  A finite double stands for a rational number.  Read as an unsigned
word it is the one integer from `0` to below `2 ^ 32` that is congruent to the integer part of this
number, and read as a signed word the one from `-2 ^ 31` to below `2 ^ 31`.  Infinities and NaN are
zero. -/
theorem words_iff (x : Double) :
    match x with
    | .finite _ _ => ∃ q, x.value? = some q ∧
      (∀ u : ℤ, x.toUInt32.toNat = u ↔
        0 ≤ u ∧ u < 2 ^ 32 ∧ u ≡ integerPart q [ZMOD 2 ^ 32]) ∧
      (∀ i : ℤ, x.toInt32.toInt = i ↔
        -2 ^ 31 ≤ i ∧ i < 2 ^ 31 ∧ i ≡ integerPart q [ZMOD 2 ^ 32])
    | .infinite _ | .nan => x.toUInt32 = 0 ∧ x.toInt32 = 0 := by
  cases x with
  | nan => exact ⟨rfl, rfl⟩
  | infinite s => exact ⟨rfl, rfl⟩
  | finite s r =>
    refine ⟨_, value?_finite s r, ?_⟩
    rw [← truncate_eq]
    exact ⟨toUInt32_eq_iff _, toInt32_eq_iff _⟩

/-- One half below zero is cut to zero, and the words wrap around at both ends. -/
example : (round true one 2).toUInt32 = 0 ∧ (ofInt (-1)).toUInt32 = 4294967295 ∧
    (ofInt 2147483648).toInt32 = -2147483648 := by decide +kernel

end Double

end ActionTree
