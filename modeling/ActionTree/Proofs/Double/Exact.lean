import ActionTree.Double.Arithmetic
import Mathlib.Algebra.Group.Int.Defs
import Mathlib.Algebra.Group.Nat.Defs

/-!
# Rounding loses nothing that has a rank

Rounding a number of units that some rank has gives that rank, so whole numbers below `2 ^ 53` and
all whole doubles survive the way through `ofInt`.

* `Double.nearestRank_rankUnits` - the rank nearest to the units of a rank is that rank;
* `Double.exists_rank` - small whole numbers have a rank;
* `Double.IsWhole` - doubles that are integers other than negative zero;
* `Double.ofInt_truncate` - such a double is the one of its integer part;
* `Double.toNat_toUInt32`, `Double.toInt_toInt32` - the two integer readings, modulo `2 ^ 32`.
-/

namespace ActionTree.Double

/-! ### Powers of two -/

theorem binade_eq : binade = 2 ^ 52 := rfl

theorem rankLimit_eq : rankLimit = 2047 * 2 ^ 52 := rfl

theorem one_eq : one = 2 ^ 1074 := by
  rw [one, Nat.shiftLeft_eq, Nat.one_mul]

theorem rankUnits_eq (r : Nat) :
    rankUnits r = if r < 2 ^ 52 then r else (2 ^ 52 + r % 2 ^ 52) * 2 ^ (r / 2 ^ 52 - 1) := by
  rw [rankUnits, Nat.shiftLeft_eq, binade_eq]

theorem nearestRank_eq (num den : Nat) :
    nearestRank num den = (Nat.log2 (num / den) - 52) * 2 ^ 52 +
      divHalfEven num (den * 2 ^ (Nat.log2 (num / den) - 52)) := by
  rw [nearestRank, Nat.shiftLeft_eq, binade_eq]

/-! ### Significand and exponent of a rank -/

/-- The rank of the significand `m` at spacing `2 ^ e` has `m * 2 ^ e` units. -/
theorem rankUnits_significand (e m : Nat) (low : 2 ^ 52 ≤ m) (high : m < 2 ^ 53) :
    rankUnits (e * 2 ^ 52 + m) = m * 2 ^ e := by
  have hmod : (e * 2 ^ 52 + m) % 2 ^ 52 = m - 2 ^ 52 := by omega
  have hdiv : (e * 2 ^ 52 + m) / 2 ^ 52 = e + 1 := by omega
  rw [rankUnits_eq, if_neg (by omega), hmod, hdiv, Nat.add_sub_cancel, Nat.add_sub_cancel' low]

/-- Every rank past the evenly spaced ones has a significand and a spacing. -/
theorem exists_significand {r : Nat} (h : 2 ^ 52 ≤ r) :
    ∃ e m, 2 ^ 52 ≤ m ∧ m < 2 ^ 53 ∧ r = e * 2 ^ 52 + m :=
  ⟨r / 2 ^ 52 - 1, 2 ^ 52 + r % 2 ^ 52, by omega, by omega, by omega⟩

theorem log2_significand (e m : Nat) (low : 2 ^ 52 ≤ m) (high : m < 2 ^ 53) :
    Nat.log2 (m * 2 ^ e) = 52 + e := by
  have hpos : 0 < 2 ^ e := Nat.pow_pos (by decide)
  have hne : m * 2 ^ e ≠ 0 := Nat.mul_ne_zero (by omega) (by omega)
  rw [Nat.log2_eq_iff hne]
  constructor
  · rw [Nat.pow_add]
    exact Nat.mul_le_mul_right _ low
  · rw [show 52 + e + 1 = 53 + e by omega, Nat.pow_add]
    exact Nat.mul_lt_mul_of_pos_right high hpos

/-! ### Exact quotients -/

theorem divHalfEven_mul (n : Nat) {den : Nat} (h : 0 < den) : divHalfEven (n * den) den = n := by
  rw [divHalfEven, Nat.mul_mod_left, if_pos (by omega), Nat.mul_div_cancel _ h]

/-- The rank nearest to the units of a rank is that rank. -/
theorem nearestRank_rankUnits (r : Nat) : nearestRank (rankUnits r) 1 = r := by
  rcases Nat.lt_or_ge r (2 ^ 52) with hr | hr
  · -- below `2 ^ 52` a rank is its own number of units
    have hlog : Nat.log2 r - 52 = 0 := by
      rcases Nat.eq_zero_or_pos r with h0 | hpos
      · rw [h0, Nat.log2_zero]
      · have := (Nat.log2_lt (by omega)).2 hr
        omega
    rw [rankUnits_eq, if_pos hr, nearestRank_eq, Nat.div_one, hlog]
    simpa using divHalfEven_mul r Nat.one_pos
  · obtain ⟨e, m, low, high, rfl⟩ := exists_significand hr
    have hlog : Nat.log2 (m * 2 ^ e) - 52 = e := by
      rw [log2_significand e m low high]
      omega
    rw [rankUnits_significand e m low high, nearestRank_eq, Nat.div_one, hlog, Nat.one_mul,
      divHalfEven_mul m (Nat.pow_pos (by decide))]

theorem round_eq_finite (s : Bool) {num den : Nat} {r : Fin rankLimit}
    (h : nearestRank num den = r) : round s num den = .finite s r := by
  rw [round, dif_pos (by rw [h]; exact r.isLt)]
  congr 1
  exact Fin.ext h

theorem round_rankUnits (s : Bool) (r : Fin rankLimit) : round s (rankUnits r) 1 = .finite s r :=
  round_eq_finite s (nearestRank_rankUnits r)

/-! ### Whole numbers -/

theorem one_pos : 0 < one := by
  rw [one_eq]
  exact Nat.two_pow_pos 1074

/-- Whole numbers below `2 ^ 53` have a rank. -/
theorem exists_rank {n : Nat} (h : n < 2 ^ 53) :
    ∃ r : Fin rankLimit, rankUnits r = n * one := by
  rcases Nat.eq_zero_or_pos n with h0 | hpos
  · exact ⟨⟨0, by decide⟩, by rw [h0, Nat.zero_mul]; rfl⟩
  · -- shift the leading bit of `n` to place 52
    have hlog : n.log2 < 53 := (Nat.log2_lt (by omega)).2 h
    have hle : 2 ^ n.log2 ≤ n := Nat.log2_self_le (by omega)
    have hlt : n < 2 ^ (n.log2 + 1) := (Nat.log2_lt (by omega)).1 (Nat.lt_succ_self _)
    have hshift : 0 < 2 ^ (52 - n.log2) := Nat.pow_pos (by decide)
    have low : 2 ^ 52 ≤ n * 2 ^ (52 - n.log2) := calc
      2 ^ 52 = 2 ^ n.log2 * 2 ^ (52 - n.log2) := by rw [← Nat.pow_add]; congr 1; omega
      _ ≤ n * 2 ^ (52 - n.log2) := Nat.mul_le_mul_right _ hle
    have high : n * 2 ^ (52 - n.log2) < 2 ^ 53 := calc
      n * 2 ^ (52 - n.log2) < 2 ^ (n.log2 + 1) * 2 ^ (52 - n.log2) :=
        Nat.mul_lt_mul_of_pos_right hlt hshift
      _ = 2 ^ 53 := by rw [← Nat.pow_add]; congr 1; omega
    have hlimit : (1022 + n.log2) * 2 ^ 52 + n * 2 ^ (52 - n.log2) < rankLimit := by
      rw [rankLimit_eq]
      omega
    refine ⟨⟨_, hlimit⟩, ?_⟩
    rw [rankUnits_significand _ _ low high, Nat.mul_assoc, ← Nat.pow_add, one_eq]
    congr 2
    omega

/-- A double that is an integer, and not negative zero. -/
def IsWhole (x : Double) : Prop := x.isInteger ∧ ¬(x.isZero ∧ x.isNegative)

instance (x : Double) : Decidable x.IsWhole := inferInstanceAs (Decidable (_ ∧ _))

theorem ofNat_eq_ofInt (n : Nat) : ofNat n = ofInt n := by
  have hsign : decide ((n : Int) < 0) = false := by simp
  rw [ofNat, ofInt, hsign, Int.natAbs_natCast]

theorem ofInt_of_units {i : Int} {r : Fin rankLimit} (h : rankUnits r = i.natAbs * one) :
    ofInt i = .finite (i < 0) r := by
  rw [ofInt, ← h, round_rankUnits]

theorem truncate_of_units {r : Fin rankLimit} {k : Nat} (s : Bool) (h : rankUnits r = k * one) :
    truncate (.finite s r) = if s then -(k : Int) else k := by
  rw [truncate, h, Nat.mul_div_cancel _ one_pos]

theorem rankUnits_eq_zero {r : Nat} (h : rankUnits r = 0) : r = 0 := by
  have hrank := nearestRank_rankUnits r
  rw [h] at hrank
  exact hrank.symm

/-- An integer below `2 ^ 53` becomes a whole double with that integer part. -/
theorem isWhole_ofInt {i : Int} (h : i.natAbs < 2 ^ 53) :
    (ofInt i).IsWhole ∧ (ofInt i).truncate = i := by
  obtain ⟨r, hr⟩ := exists_rank h
  rw [ofInt_of_units hr, truncate_of_units _ hr]
  refine ⟨⟨?_, ?_⟩, ?_⟩
  · simp [isInteger, hr]
  · rintro ⟨hzero, hneg⟩
    have hi : i < 0 := by simpa [isNegative] using hneg
    have hrank : r.val = 0 := by simpa [isZero] using hzero
    have hunits : i.natAbs * one = 0 := by rw [← hr, hrank]; rfl
    have hpos := Nat.mul_pos (show 0 < i.natAbs by omega) one_pos
    omega
  · simp only [decide_eq_true_eq]
    split <;> omega

/-- A whole double is the double of its integer part. -/
theorem ofInt_truncate {x : Double} (h : x.IsWhole) : ofInt x.truncate = x := by
  obtain ⟨hint, hzero⟩ := h
  cases x with
  | nan => simp [isInteger] at hint
  | infinite s => simp [isInteger] at hint
  | finite s r =>
    obtain ⟨k, hk⟩ : ∃ k, rankUnits r = k * one := by
      have hmod : rankUnits r % one = 0 := by simpa [isInteger] using hint
      exact ⟨_, (Nat.div_mul_cancel (Nat.dvd_of_mod_eq_zero hmod)).symm⟩
    have habs : (truncate (.finite s r)).natAbs = k := by
      rw [truncate_of_units s hk]
      split <;> omega
    rw [ofInt_of_units (r := r) (by rw [habs, hk]), truncate_of_units s hk]
    congr 1
    cases s with
    | false => simp
    | true =>
      have hr : r.val ≠ 0 := by simpa [isZero, isNegative] using hzero
      have hpos : k ≠ 0 := by
        rintro rfl
        exact hr (rankUnits_eq_zero (by rw [hk, Nat.zero_mul]))
      simp only [if_true, decide_eq_true_eq]
      omega

/-! ### Words -/

/-- Reading a double as an unsigned word takes its integer part modulo `2 ^ 32`. -/
theorem toNat_toUInt32 (x : Double) : (x.toUInt32.toNat : Int) = x.truncate % 2 ^ 32 := by
  cases x with
  | nan => rfl
  | infinite s => rfl
  | finite s r =>
    simp only [toUInt32, truncate]
    generalize rankUnits r / one = k
    cases s with
    | false => simp [UInt32.toNat_ofNat']
    | true =>
      simp only [if_true, UInt32.toNat_neg, UInt32.toNat_ofNat', UInt32.size]
      omega

/-- Reading a double as a signed word takes its integer part modulo `2 ^ 32` nearest to zero. -/
theorem toInt_toInt32 (x : Double) : x.toInt32.toInt = x.truncate.bmod (2 ^ 32) := by
  have hword : x.toInt32.toInt = (x.toUInt32.toNat : Int).bmod (2 ^ 32) :=
    BitVec.toInt_eq_toNat_bmod x.toUInt32.toBitVec
  rw [hword, toNat_toUInt32]
  exact Int.emod_bmod _ _

end ActionTree.Double
