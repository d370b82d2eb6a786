import ActionTree.Proofs.Double.Nearest

/-!
# Arithmetic rounds the exact result

The product and the sum of finite doubles are the exact ones, rounded once.  Whole numbers from
`2 ^ 53` on lie between two doubles that are whole numbers too.

* `Double.mul_finite`, `Double.add_finite` - products and sums without signs;
* `Double.rankNear_mul_two_pow` - a power of two moves the nearest rank by whole binades;
* `Double.isNearest_ofNat` - the double of a natural number is the nearest one;
* `Double.brackets_whole` - the two doubles around a large whole number.
-/

namespace ActionTree.Double

/-! ### Products and sums -/

theorem mul_finite (a b : Fin rankLimit) :
    (finite false a).mul (finite false b) =
      ofRank false (rankNear (magnitude a * magnitude b)) := by
  have hproduct :
      ((rankUnits a * rankUnits b : ℕ) : ℚ) / one / one = magnitude a * magnitude b := by
    rw [magnitude, magnitude, Nat.cast_mul, div_mul_div_comm, div_div]
  rw [← hproduct, ← round_eq_ofRank _ _ one_pos]
  rfl

theorem add_finite (a b : Fin rankLimit) :
    (finite false a).add (finite false b) =
      ofRank false (rankNear (magnitude a + magnitude b)) := by
  have hsum :
      ((rankUnits a + rankUnits b : ℕ) : ℚ) / (1 : ℕ) / one = magnitude a + magnitude b := by
    rw [magnitude, magnitude, Nat.cast_add, Nat.cast_one, div_one, add_div]
  have hnatAbs : (rankUnits a + rankUnits b : ℤ).natAbs = rankUnits a + rankUnits b := by omega
  have hsign : decide ((rankUnits a + rankUnits b : ℤ) < 0) = false := decide_eq_false (by omega)
  rw [← hsum, ← round_eq_ofRank _ _ Nat.one_pos]
  show (if (rankUnits a + rankUnits b : ℤ) = 0 then zero false
    else round (decide ((rankUnits a + rankUnits b : ℤ) < 0))
      (rankUnits a + rankUnits b : ℤ).natAbs 1) = _
  rw [hnatAbs, hsign]
  split_ifs with hzero
  · have hunits : rankUnits a + rankUnits b = 0 := by omega
    rw [hunits, round_eq_zero false (by omega)]
  · rfl

/-! ### Powers of two -/

theorem Brackets.mul_two_pow {q : ℚ} {a : ℕ} (h : Brackets q a) (ha : 2 ^ 52 ≤ a) (k : ℕ) :
    Brackets (q * 2 ^ k) (a + k * 2 ^ 52) := by
  have hpos : (0 : ℚ) < 2 ^ k := by positivity
  refine ⟨?_, ?_⟩
  · rw [magnitude_add_binade ha]
    exact mul_le_mul_of_nonneg_right h.below hpos.le
  · rw [Nat.add_right_comm, magnitude_add_binade (by omega)]
    exact mul_lt_mul_of_pos_right h.above hpos

/-- A power of two moves the nearest rank by whole binades. -/
theorem rankNear_mul_two_pow {q : ℚ} {a : ℕ} (h : Brackets q a) (ha : 2 ^ 52 ≤ a) (k : ℕ) :
    rankNear (q * 2 ^ k) = rankNear q + k * 2 ^ 52 := by
  have hpos : (0 : ℚ) < 2 ^ k := by positivity
  have hsum : magnitude (a + k * 2 ^ 52) + magnitude (a + k * 2 ^ 52 + 1) =
      (magnitude a + magnitude (a + 1)) * 2 ^ k := by
    rw [Nat.add_right_comm, magnitude_add_binade ha, magnitude_add_binade (by omega), add_mul]
  rw [rankNear_of_brackets (h.mul_two_pow ha k), rankNear_of_brackets h, hsum, ← mul_assoc]
  simp only [mul_lt_mul_iff_of_pos_right hpos]
  split_ifs <;> omega

/-! ### Whole numbers -/

theorem ofNat_eq_ofRank (n : ℕ) : ofNat n = ofRank false (rankNear n) := by
  have hvalue : ((n * one : ℕ) : ℚ) / (1 : ℕ) / one = n := by
    rw [Nat.cast_mul, Nat.cast_one, div_one, mul_div_cancel_right₀ _ one_ne_zero]
  rw [ofNat, round_eq_ofRank _ _ Nat.one_pos, hvalue]

theorem isNearest_natCast_iff {n : ℕ} {x : Double} : IsNearest n x ↔ x = ofNat n := by
  rw [isNearest_iff (Nat.cast_nonneg n), ofNat_eq_ofRank]

/-- The double of a natural number is the nearest one. -/
theorem isNearest_ofNat (n : ℕ) : IsNearest n (ofNat n) := isNearest_natCast_iff.2 rfl

theorem magnitude_of_rankUnits {n r : ℕ} (h : rankUnits r = n * one) : magnitude r = n := by
  rw [magnitude, h, Nat.cast_mul, mul_div_cancel_right₀ _ one_ne_zero]

/-- The rank of `m` steps of a power of two that is a whole number. -/
theorem magnitude_whole {j m : ℕ} (low : 2 ^ 52 ≤ m) (high : m ≤ 2 ^ 53) :
    magnitude ((1074 + j) * 2 ^ 52 + m) = (m * 2 ^ j : ℕ) := by
  refine magnitude_of_rankUnits ?_
  have hpow : 2 ^ (1074 + j) = 2 ^ j * one := by rw [one_eq, ← Nat.pow_add, Nat.add_comm]
  rw [rankUnits_step (.inr low) high, hpow, Nat.mul_assoc]

/-- From `2 ^ 53` on a whole number has more binary digits than a significand. -/
theorem exists_wholeStep {n : ℕ} (hn : 2 ^ 53 ≤ n) :
    ∃ j m, 2 ^ 52 ≤ m ∧ m < 2 ^ 53 ∧ m * 2 ^ (j + 1) ≤ n ∧ n < (m + 1) * 2 ^ (j + 1) := by
  have hne : n ≠ 0 := by omega
  obtain ⟨j, hj⟩ : ∃ j, n.log2 = 52 + (j + 1) :=
    ⟨n.log2 - 53, by have := (Nat.le_log2 hne).2 hn; omega⟩
  have hlow : 2 ^ (52 + (j + 1)) ≤ n := hj ▸ Nat.log2_self_le hne
  have hhigh : n < 2 ^ (53 + (j + 1)) := by
    have h := Nat.lt_log2_self (n := n)
    rwa [hj, show 52 + (j + 1) + 1 = 53 + (j + 1) by omega] at h
  rw [Nat.pow_add] at hlow hhigh
  have hpos := Nat.two_pow_pos (j + 1)
  exact ⟨j, n / 2 ^ (j + 1), (Nat.le_div_iff_mul_le hpos).2 hlow,
    (Nat.div_lt_iff_lt_mul hpos).2 hhigh, Nat.div_mul_le_self _ _,
    Nat.mul_comm _ (n / 2 ^ (j + 1) + 1) ▸ Nat.lt_mul_div_succ n hpos⟩

/-- The two doubles around a large whole number are whole numbers. -/
theorem brackets_whole {n j m : ℕ} (low : 2 ^ 52 ≤ m) (high : m < 2 ^ 53)
    (hbelow : m * 2 ^ j ≤ n) (habove : n < (m + 1) * 2 ^ j) :
    Brackets n ((1074 + j) * 2 ^ 52 + m) := by
  refine ⟨?_, ?_⟩
  · rw [magnitude_whole low high.le]
    exact_mod_cast hbelow
  · rw [Nat.add_assoc, magnitude_whole (by omega) high]
    exact_mod_cast habove

end ActionTree.Double
