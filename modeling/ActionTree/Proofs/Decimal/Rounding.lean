import ActionTree.Decimal.Basic
import ActionTree.Proofs.Double.Rounding

/-!
# Decimals are rounded once

The two shortcuts far outside the range of doubles give what rounding would give, so a decimal
always becomes its nearest double.

* `Decimal.toDouble_eq_round` - the double of a decimal is its value, rounded;
* `Decimal.toDouble_eq_finite` - which is the double of the decimal's nearest rank;
* `Decimal.toDouble_shift` - zeros at the end of a coefficient can be counted in the exponent.
-/

namespace ActionTree.Decimal

/-! ### Powers of ten -/

theorem ten_pow_le {m n : Nat} (h : m ≤ n) : Nat.pow 10 m ≤ Nat.pow 10 n :=
  Nat.pow_le_pow_right (by decide) h

theorem ten_pow_pos (n : Nat) : 0 < Nat.pow 10 n := Nat.pow_pos (by decide)

/-- A number has no more digits than its bound. -/
theorem lt_ten_pow_digitBound (n : Nat) : n < Nat.pow 10 (digitBound n) := calc
  n < 2 ^ (n.log2 + 1) := Nat.lt_log2_self
  _ ≤ 2 ^ (3 * digitBound n) := Nat.pow_le_pow_right (by decide) (by rw [digitBound]; omega)
  _ = (2 ^ 3) ^ digitBound n := Nat.pow_mul ..
  _ ≤ Nat.pow 10 (digitBound n) := Nat.pow_le_pow_left (by decide) _

/-- The units of `10 ^ 400` are past the last rank. -/
theorem two_pow_le_units : 2 ^ (52 + 2046) ≤ Nat.pow 10 400 * Double.one := by decide +kernel

/-- `10 ^ -400` is less than half a unit. -/
theorem two_mul_one_le : 2 * Double.one ≤ Nat.pow 10 400 := by decide +kernel

/-! ### Shortcuts -/

/-- A decimal with a great exponent is past the last rank. -/
theorem rankLimit_le_nearestRank {d : Decimal} (hd : d.coefficient ≠ 0) (h : 400 < d.exponent) :
    Double.rankLimit ≤ d.nearestRank := by
  have hden : d.denominator = 1 := by
    rw [denominator, show (-d.exponent).toNat = 0 by omega]
  have hpow : Nat.pow 10 400 ≤ d.coefficient * Nat.pow 10 d.exponent.toNat :=
    Nat.le_trans (ten_pow_le (by omega)) (Nat.le_mul_of_pos_left _ (Nat.pos_of_ne_zero hd))
  have hnum : 2 ^ (52 + 2046) ≤ d.numerator / d.denominator := by
    rw [hden, Nat.div_one]
    exact Nat.le_trans two_pow_le_units (Nat.mul_le_mul_right _ hpow)
  exact Double.le_nearestRank hnum

/-- A decimal with few digits before a small exponent is less than half a unit. -/
theorem two_mul_numerator_lt {d : Decimal} (h : d.exponent + digitBound d.coefficient < -400) :
    2 * d.numerator < d.denominator := by
  have hnum : d.numerator = d.coefficient * Double.one := by
    rw [numerator, show d.exponent.toNat = 0 by omega]
    exact congrArg (· * Double.one) (Nat.mul_one _)
  rw [hnum, denominator]
  calc
    2 * (d.coefficient * Double.one) = d.coefficient * (2 * Double.one) := Nat.mul_left_comm ..
    _ ≤ d.coefficient * Nat.pow 10 400 := Nat.mul_le_mul_left _ two_mul_one_le
    _ < Nat.pow 10 (digitBound d.coefficient) * Nat.pow 10 400 :=
      Nat.mul_lt_mul_of_pos_right (lt_ten_pow_digitBound _) (ten_pow_pos 400)
    _ = Nat.pow 10 (digitBound d.coefficient + 400) := (Nat.pow_add ..).symm
    _ ≤ Nat.pow 10 (-d.exponent).toNat := ten_pow_le (by omega)

/-! ### Rounding -/

/-- The double of a decimal is its value, rounded. -/
theorem toDouble_eq_round (s : Bool) (d : Decimal) :
    d.toDouble s = .round s d.numerator d.denominator := by
  rw [toDouble]
  split_ifs with hzero hlarge hsmall
  · have hnum : 2 * d.numerator < d.denominator := by
      rw [numerator, hzero, Nat.zero_mul, Nat.zero_mul]
      exact ten_pow_pos _
    exact (Double.round_eq_zero s hnum).symm
  · exact (Double.round_eq_infinite s (rankLimit_le_nearestRank hzero hlarge)).symm
  · exact (Double.round_eq_zero s (two_mul_numerator_lt hsmall)).symm
  · rfl

theorem toDouble_eq_finite (s : Bool) {d : Decimal} {r : Fin Double.rankLimit}
    (h : d.nearestRank = r) : d.toDouble s = .finite s r := by
  rw [toDouble_eq_round]
  exact Double.round_eq_finite s h

theorem neg_toDouble (s : Bool) (d : Decimal) : (d.toDouble s).neg = d.toDouble (!s) := by
  rw [toDouble_eq_round, toDouble_eq_round, Double.neg_round]

/-- Zeros at the end of a coefficient can be counted in the exponent. -/
theorem toDouble_shift (s : Bool) (c k : Nat) :
    toDouble s ⟨c * 10 ^ k, 0⟩ = toDouble s ⟨c, k⟩ := by
  have hnum : numerator ⟨c * 10 ^ k, 0⟩ = numerator ⟨c, k⟩ := by
    show c * 10 ^ k * 1 * Double.one = c * 10 ^ k * Double.one
    rw [Nat.mul_one]
  have hden : denominator ⟨c * 10 ^ k, 0⟩ = denominator ⟨c, k⟩ := by
    rw [denominator, denominator, show (-(k : Int)).toNat = 0 by omega]
    rfl
  rw [toDouble_eq_round, toDouble_eq_round, hnum, hden]

end ActionTree.Decimal
