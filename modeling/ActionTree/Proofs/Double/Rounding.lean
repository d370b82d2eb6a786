import ActionTree.Proofs.Double.Exact
import Mathlib.Tactic.SplitIfs

/-!
# How a quotient is rounded

* `Double.nearestRank_scale` - only the quotient matters, not how it is written;
* `Double.le_nearestRank` - the rank of a large quotient is large;
* `Double.round_eq_zero`, `Double.round_eq_infinite` - less than half a unit is rounded to zero, and
  a quotient past the last rank to an infinity;
* `Double.neg_round` - the sign has no part in it.
-/

namespace ActionTree.Double

/-! ### Equal quotients -/

theorem divHalfEven_scale {k : Nat} (hk : 0 < k) (num den : Nat) :
    divHalfEven (num * k) (den * k) = divHalfEven num den := by
  have hdiv : num * k / (den * k) = num / den := Nat.mul_div_mul_right num den hk
  have hmod : num * k % (den * k) = num % den * k := Nat.mul_mod_mul_right k num den
  rw [divHalfEven, divHalfEven, hdiv, hmod, ← Nat.mul_assoc]
  simp only [Nat.mul_lt_mul_right hk]

/-- The nearest rank depends on the quotient only. -/
theorem nearestRank_scale {k : Nat} (hk : 0 < k) (num den : Nat) :
    nearestRank (num * k) (den * k) = nearestRank num den := by
  rw [nearestRank_eq, nearestRank_eq, Nat.mul_div_mul_right num den hk, Nat.mul_right_comm,
    divHalfEven_scale hk]

/-! ### Large and small quotients -/

theorem div_le_divHalfEven (num den : Nat) : num / den ≤ divHalfEven num den := by
  rw [divHalfEven]
  split_ifs <;> omega

/-- The rank of a quotient from `2 ^ (52 + e)` on is not below the rank of this power. -/
theorem le_nearestRank {num den e : Nat} (h : 2 ^ (52 + e) ≤ num / den) :
    (e + 1) * 2 ^ 52 ≤ nearestRank num den := by
  have hne : num / den ≠ 0 := Nat.pos_iff_ne_zero.1 (Nat.lt_of_lt_of_le (Nat.two_pow_pos _) h)
  have hlog : 52 + e ≤ (num / den).log2 := (Nat.le_log2 hne).2 h
  obtain ⟨step, hstep⟩ : ∃ step, (num / den).log2 = 52 + step :=
    ⟨(num / den).log2 - 52, by omega⟩
  have hle : 2 ^ (52 + step) ≤ num / den := hstep ▸ Nat.log2_self_le hne
  -- the quotient in steps has 53 binary digits
  have hsteps : 2 ^ 52 ≤ num / (den * 2 ^ step) := by
    rw [← Nat.div_div_eq_div_mul, Nat.le_div_iff_mul_le (Nat.two_pow_pos step), ← Nat.pow_add]
    exact hle
  have hround := Nat.le_trans hsteps (div_le_divHalfEven num (den * 2 ^ step))
  rw [nearestRank_eq, hstep, Nat.add_sub_cancel_left]
  omega

theorem nearestRank_eq_zero {num den : Nat} (h : 2 * num < den) : nearestRank num den = 0 := by
  have hdiv : num / den = 0 := Nat.div_eq_of_lt (by omega)
  have hmod : num % den = num := Nat.mod_eq_of_lt (by omega)
  rw [nearestRank_eq, hdiv, Nat.log2_zero, Nat.zero_sub, Nat.zero_mul, Nat.zero_add, Nat.pow_zero,
    Nat.mul_one, divHalfEven, hmod, if_pos h, hdiv]

/-- Less than half a unit is rounded to zero. -/
theorem round_eq_zero (s : Bool) {num den : Nat} (h : 2 * num < den) :
    round s num den = zero s :=
  round_eq_finite s (nearestRank_eq_zero h)

/-- A quotient past the last rank is rounded to an infinity. -/
theorem round_eq_infinite (s : Bool) {num den : Nat} (h : rankLimit ≤ nearestRank num den) :
    round s num den = .infinite s :=
  dif_neg (Nat.not_lt.2 h)

/-! ### Signs -/

theorem neg_round (s : Bool) (num den : Nat) : (round s num den).neg = round (!s) num den := by
  unfold round
  split_ifs <;> rfl

end ActionTree.Double
