import ActionTree.Proofs.Double.Exact
import Mathlib.Tactic.ByContra
import Mathlib.Tactic.SplitIfs

/-!
# A word by way of a remainder

The unsigned word of a double can be had in double arithmetic: the fraction is cut off, the
remainder by `2 ^ 32` is brought above zero, and what is left is cast.  No step rounds.

* `Double.cut`, `Double.remainder`, `Double.cast` - the steps;
* `Double.wordByRemainder` - the word that they lead to;
* `Double.exists_rank_cut` - cutting off a fraction is exact;
* `Double.wordByRemainder_eq` - the steps give the word.
-/

namespace ActionTree.Double

/-! ### The steps -/

/-- The double without its fraction. -/
def cut : Double → Double
  | .finite s r => round s (rankUnits r / one * one) 1
  | x => x

/-- The magnitude. -/
def abs : Double → Double
  | .nan => .nan
  | .infinite _ => .infinite false
  | .finite _ r => .finite false r

/-- The remainder that is not negative: the one with the sign of the dividend, moved up by the
divisor if it lies below zero. -/
def remainder (x y : Double) : Double :=
  if (x.rem y).lt? (zero false) = some true then (x.rem y).add y.abs else x.rem y

/-- The unsigned word nearest to the integer part; NaN gives zero. -/
def cast : Double → UInt32
  | .nan => 0
  | .infinite s => if s then 0 else .ofNat (2 ^ 32 - 1)
  | .finite s r => if s then 0 else .ofNat (min (rankUnits r / one) (2 ^ 32 - 1))

/-- The unsigned word of a double by these steps; what is not finite, and zero, is left out
before. -/
def wordByRemainder (x : Double) : UInt32 :=
  if !x.isFinite || x.isZero then 0 else ((x.cut).remainder (ofNat (2 ^ 32))).cast

/-! ### No step rounds -/

/-- A number of units that some rank has is not rounded. -/
theorem round_units (s : Bool) {units : ℕ} {r : Fin rankLimit} (h : rankUnits r = units) :
    round s units 1 = .finite s r := by
  rw [← h, round_rankUnits]

/-- Cutting off a fraction leads to another rank: below `2 ^ 53` every whole number has one, and
from there on there are no fractions. -/
theorem exists_rank_cut (r : Fin rankLimit) :
    ∃ r' : Fin rankLimit, rankUnits r' = rankUnits r / one * one := by
  by_cases hsmall : rankUnits r / one < 2 ^ 53
  · exact exists_rank hsmall
  · have hlarge : 2 ^ 53 * one ≤ rankUnits r :=
      (Nat.le_div_iff_mul_le one_pos).1 (Nat.le_of_not_lt hsmall)
    refine ⟨r, (Nat.div_mul_cancel ?_).symm⟩
    have hspaced : 2 ^ 52 ≤ r.val := by
      by_contra hr
      rw [rankUnits_eq, if_pos (Nat.lt_of_not_le hr)] at hlarge
      have hone := Nat.mul_le_mul_left (2 ^ 53) one_pos
      omega
    obtain ⟨e, m, hlow, hhigh, hr⟩ := exists_significand hspaced
    rw [hr, rankUnits_significand e m hlow hhigh] at hlarge ⊢
    have he : 1074 ≤ e := by
      by_contra he
      have hlt : m * 2 ^ e < 2 ^ 53 * one := by
        rw [one_eq]
        exact Nat.mul_lt_mul_of_lt_of_le hhigh (Nat.pow_le_pow_right (by decide) (by omega))
          (Nat.two_pow_pos _)
      exact absurd hlarge (Nat.not_le_of_lt hlt)
    rw [one_eq]
    exact Nat.dvd_mul_left_of_dvd (Nat.pow_dvd_pow 2 he) m

/-- The remainder of whole doubles is that of their integer parts. -/
theorem rem_whole {s : Bool} {r b : Fin rankLimit} {k n : ℕ} (hr : rankUnits r = k * one)
    (hb : rankUnits b = n * one) (hn : n ≠ 0) {r' : Fin rankLimit}
    (hr' : rankUnits r' = k % n * one) :
    (finite s r).rem (finite false b) = finite s r' := by
  have hzero : b.val ≠ 0 := by
    intro hzero
    rw [hzero] at hb
    have hpos := Nat.mul_pos (Nat.pos_of_ne_zero hn) one_pos
    have hnone : rankUnits 0 = 0 := rfl
    omega
  rw [rem, if_neg hzero, hr, hb, Nat.mul_mod_mul_right]
  exact round_units s hr'

/-- A remainder below zero is moved up by the divisor. -/
theorem add_whole {a b : Fin rankLimit} {j n : ℕ} (ha : rankUnits a = j * one)
    (hb : rankUnits b = n * one) (hj : j < n) {r : Fin rankLimit}
    (hr : rankUnits r = (n - j) * one) :
    (finite true a).add (finite false b) = finite false r := by
  have hle : j * one ≤ n * one := Nat.mul_le_mul_right _ (Nat.le_of_lt hj)
  have hpos : 0 < (n - j) * one := Nat.mul_pos (Nat.sub_pos_of_lt hj) one_pos
  have hsum : signedUnits true a + signedUnits false b = ((n - j) * one : ℕ) := by
    rw [signedUnits, signedUnits, ha, hb, Nat.sub_mul]
    simp only [if_true, Bool.false_eq_true, if_false]
    omega
  have hsign : decide ((((n - j) * one : ℕ) : ℤ) < 0) = false :=
    decide_eq_false (Int.not_lt.2 (Int.natCast_nonneg _))
  rw [add]
  simp only [hsum]
  rw [if_neg (by omega), hsign, Int.natAbs_natCast]
  exact round_units false hr

theorem lt_zero_iff (s : Bool) (r : Fin rankLimit) :
    (finite s r).lt? (zero false) = some true ↔ s = true ∧ r.val ≠ 0 := by
  cases s with
  | false => simp [lt?, place?, zero]
  | true =>
    simp only [lt?, place?, zero, if_true, Bool.false_eq_true, if_false, Option.some.injEq,
      decide_eq_true_eq, true_and]
    omega

/-- A word is cast to itself. -/
theorem cast_whole {r : Fin rankLimit} {k : ℕ} (hr : rankUnits r = k * one) (hk : k < 2 ^ 32) :
    (finite false r).cast = .ofNat k := by
  rw [cast, if_neg (by simp), hr, Nat.mul_div_cancel _ one_pos, Nat.min_eq_left (by omega)]

/-- **The steps give the word.** -/
theorem wordByRemainder_eq (x : Double) : x.wordByRemainder = x.toUInt32 := by
  cases x with
  | nan => rfl
  | infinite s => rfl
  | finite s r =>
    generalize hk : rankUnits r / one = k
    obtain ⟨whole, hwhole⟩ := exists_rank_cut r
    obtain ⟨divisor, hdivisor⟩ := exists_rank (show 2 ^ 32 < 2 ^ 53 by decide)
    have hlt : k % 2 ^ 32 < 2 ^ 32 := Nat.mod_lt _ (by decide)
    obtain ⟨rest, hrest⟩ := exists_rank (show k % 2 ^ 32 < 2 ^ 53 by omega)
    rw [hk] at hwhole
    have hcut : (finite s r).cut = finite s whole := by
      rw [cut, hk]
      exact round_units s hwhole
    have hby : ofNat (2 ^ 32) = finite false divisor := round_units false hdivisor
    have hrem := rem_whole (s := s) hwhole hdivisor (by decide) hrest
    have hword : (finite s r).toUInt32 = if s then -UInt32.ofNat k else UInt32.ofNat k := by
      rw [toUInt32, hk]
    have hclass : UInt32.ofNat (k % 2 ^ 32) = UInt32.ofNat k := by
      apply UInt32.toNat_inj.1
      simp
    rw [hword, wordByRemainder, hcut, hby, remainder, hrem]
    by_cases hzero : r.val = 0
    · have hnone : k = 0 := by
        rw [← hk, hzero]
        exact Nat.zero_div one
      rw [if_pos (by simp [isZero, hzero]), hnone]
      cases s <;> rfl
    rw [if_neg (by simpa [isFinite, isZero] using hzero)]
    cases s with
    | false =>
      rw [if_neg (by rw [lt_zero_iff]; simp), cast_whole hrest hlt, hclass]
      rfl
    | true =>
      by_cases hnone : k % 2 ^ 32 = 0
      · -- a remainder of zero keeps the sign and is not moved up
        have hstays : rest.val = 0 := rankUnits_eq_zero (by rw [hrest, hnone, Nat.zero_mul])
        rw [if_neg (by rw [lt_zero_iff]; simp [hstays]), ← hclass, hnone]
        rfl
      · have hbelow : rest.val ≠ 0 := by
          intro hstays
          have hpos := Nat.mul_pos (Nat.pos_of_ne_zero hnone) one_pos
          rw [hstays] at hrest
          have hempty : rankUnits 0 = 0 := rfl
          omega
        obtain ⟨r', hr'⟩ := exists_rank (show 2 ^ 32 - k % 2 ^ 32 < 2 ^ 53 by omega)
        rw [if_pos ((lt_zero_iff _ _).2 ⟨rfl, hbelow⟩), abs, add_whole hrest hdivisor hlt hr',
          cast_whole hr' (by omega), ← hclass]
        apply UInt32.toNat_inj.1
        simp only [if_true, UInt32.toNat_neg, UInt32.toNat_ofNat', UInt32.size]
        omega

end ActionTree.Double
