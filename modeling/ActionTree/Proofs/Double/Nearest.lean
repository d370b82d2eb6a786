import ActionTree.Proofs.Double.Rounding
import Mathlib.Algebra.Order.Archimedean.Basic
import Mathlib.Algebra.Order.Field.Basic
import Mathlib.Data.Rat.Lemmas
import Mathlib.Order.Monotone.Basic
import Mathlib.Tactic.Linarith
import Mathlib.Tactic.Positivity
import Mathlib.Tactic.Ring

/-!
# Rounding gives the nearest double

Magnitudes grow with their ranks, so a number lies between two neighbours, and rounding takes the
one that is nearer, or the even one when it lies in the middle.

* `Double.magnitude` - the number that a rank stands for;
* `Double.rankNear` - the rank nearest to a number, and `rankNear_of_brackets`, which tells it from
  the two ranks around the number;
* `Double.rankNear_mono`, `Double.rankNear_magnitude` - it grows with the number and is exact;
* `Double.IsNearest` - the double nearest to a number, as IEEE 754 has it;
* `Double.isNearest_iff` - a double is nearest to a number just when rounding gives it.
-/

namespace ActionTree.Double

/-! ### Magnitudes -/

/-- The rank of `m` steps of `2 ^ e` units has these units, also where the next spacing begins. -/
theorem rankUnits_step {e m : ℕ} (low : e = 0 ∨ 2 ^ 52 ≤ m) (high : m ≤ 2 ^ 53) :
    rankUnits (e * 2 ^ 52 + m) = m * 2 ^ e := by
  rcases Nat.lt_or_ge m (2 ^ 52) with hm | hm
  · obtain rfl : e = 0 := by omega
    rw [Nat.zero_mul, Nat.zero_add, rankUnits_eq, if_pos hm, Nat.pow_zero, Nat.mul_one]
  · rcases Nat.lt_or_ge m (2 ^ 53) with hlt | hge
    · exact rankUnits_significand e m hm hlt
    · obtain rfl : m = 2 ^ 53 := by omega
      have hrank : e * 2 ^ 52 + 2 ^ 53 = (e + 1) * 2 ^ 52 + 2 ^ 52 := by omega
      rw [hrank, rankUnits_significand (e + 1) (2 ^ 52) le_rfl (by decide), ← Nat.pow_add,
        ← Nat.pow_add, show 52 + (e + 1) = 53 + e by omega]

/-- Every rank is some number of steps. -/
theorem exists_step (r : ℕ) : ∃ e m, (e = 0 ∨ 2 ^ 52 ≤ m) ∧ m < 2 ^ 53 ∧ r = e * 2 ^ 52 + m := by
  rcases Nat.lt_or_ge r (2 ^ 52) with hr | hr
  · exact ⟨0, r, .inl rfl, by omega, by omega⟩
  · obtain ⟨e, m, low, high, hrank⟩ := exists_significand hr
    exact ⟨e, m, .inr low, high, hrank⟩

theorem rankUnits_strictMono : StrictMono rankUnits := by
  refine strictMono_nat_of_lt_succ fun r => ?_
  obtain ⟨e, m, low, high, rfl⟩ := exists_step r
  rw [Nat.add_assoc, rankUnits_step low high.le, rankUnits_step (low.imp_right (by omega)) high]
  exact Nat.mul_lt_mul_of_pos_right (Nat.lt_succ_self m) (Nat.two_pow_pos e)

/-- The magnitude of a rank, a number of ones. -/
def magnitude (r : ℕ) : ℚ := rankUnits r / one

theorem one_ne_zero : (one : ℚ) ≠ 0 := Nat.cast_ne_zero.2 one_pos.ne'

theorem cast_one_pos : (0 : ℚ) < one := Nat.cast_pos.2 one_pos

theorem magnitude_strictMono : StrictMono magnitude := by
  intro r r' h
  exact div_lt_div_of_pos_right (Nat.cast_lt.2 (rankUnits_strictMono h)) cast_one_pos

theorem magnitude_le_magnitude {r r' : ℕ} : magnitude r ≤ magnitude r' ↔ r ≤ r' :=
  magnitude_strictMono.le_iff_le

theorem magnitude_lt_magnitude {r r' : ℕ} : magnitude r < magnitude r' ↔ r < r' :=
  magnitude_strictMono.lt_iff_lt

theorem magnitude_zero : magnitude 0 = 0 := by
  rw [magnitude, show rankUnits 0 = 0 from rfl, Nat.cast_zero, zero_div]

theorem magnitude_nonneg (r : ℕ) : 0 ≤ magnitude r := by
  rw [← magnitude_zero, magnitude_le_magnitude]
  exact Nat.zero_le r

theorem magnitude_step {e m : ℕ} (low : e = 0 ∨ 2 ^ 52 ≤ m) (high : m ≤ 2 ^ 53) :
    magnitude (e * 2 ^ 52 + m) = m * 2 ^ e / one := by
  rw [magnitude, rankUnits_step low high, Nat.cast_mul, Nat.cast_pow, Nat.cast_ofNat]

/-- The magnitude of the next rank is at most twice as great. -/
theorem magnitude_succ_le {r : ℕ} (hr : r ≠ 0) : magnitude (r + 1) ≤ 2 * magnitude r := by
  obtain ⟨e, m, low, high, rfl⟩ := exists_step r
  have hm : (1 : ℚ) ≤ m := by
    refine Nat.one_le_cast.2 (Nat.pos_of_ne_zero ?_)
    rintro rfl
    omega
  have hpos : (0 : ℚ) < 2 ^ e / one := div_pos (by positivity) cast_one_pos
  rw [Nat.add_assoc, magnitude_step low high.le, magnitude_step (low.imp_right (by omega)) high,
    Nat.cast_succ, mul_div_assoc, mul_div_assoc, ← mul_assoc]
  exact mul_le_mul_of_nonneg_right (by linarith) hpos.le

/-- Past the evenly spaced ranks, `2 ^ 52` ranks further a magnitude has doubled. -/
theorem magnitude_add_binade {r : ℕ} (hr : 2 ^ 52 ≤ r) (k : ℕ) :
    magnitude (r + k * 2 ^ 52) = magnitude r * 2 ^ k := by
  obtain ⟨e, m, low, high, rfl⟩ := exists_significand hr
  have hrank : e * 2 ^ 52 + m + k * 2 ^ 52 = (e + k) * 2 ^ 52 + m := by ring
  rw [hrank, magnitude_step (.inr low) high.le, magnitude_step (.inr low) high.le, pow_add]
  ring

/-! ### The nearest rank -/

/-- The rank nearest to a number that is not negative. -/
def rankNear (q : ℚ) : ℕ := nearestRank (q * one).num.toNat (q * one).den

theorem nearestRank_eq_rankNear (num : ℕ) {den : ℕ} (hden : 0 < den) :
    nearestRank num den = rankNear (num / den / one) := by
  obtain ⟨c, hnum, hc⟩ := Rat.exists_eq_mul_div_num_and_eq_mul_div_den (num : ℤ)
    (d := (den : ℤ)) (Int.natCast_ne_zero.2 hden.ne')
  rw [rankNear, div_mul_cancel₀ _ one_ne_zero]
  rw [Int.cast_natCast, Int.cast_natCast] at hnum hc
  generalize hq : (num : ℚ) / den = q at hnum hc
  have hq0 : 0 ≤ q := hq ▸ by positivity
  have hnonneg : 0 ≤ q.num := Rat.num_nonneg.2 hq0
  have hcpos : 0 < c := by
    by_contra hneg
    have : c * (q.den : ℤ) ≤ 0 := mul_nonpos_of_nonpos_of_nonneg (by omega) (Int.natCast_nonneg _)
    omega
  have hnum' : num = q.num.toNat * c.toNat := by
    zify
    rw [Int.toNat_of_nonneg hnonneg, Int.toNat_of_nonneg hcpos.le, hnum, mul_comm]
  have hden' : den = q.den * c.toNat := by
    zify
    rw [Int.toNat_of_nonneg hcpos.le, hc, mul_comm]
  rw [hnum', hden', nearestRank_scale (by omega)]

/-- Between the units of a rank and of the next one the nearer of the two is taken, and in the
middle the even one. -/
theorem nearestRank_of_between {num den a : ℕ} (hlow : rankUnits a * den ≤ num)
    (hhigh : num < rankUnits (a + 1) * den) :
    nearestRank num den =
      if 2 * num < (rankUnits a + rankUnits (a + 1)) * den then a
      else if (rankUnits a + rankUnits (a + 1)) * den < 2 * num then a + 1
      else a + a % 2 := by
  obtain ⟨e, m, low, high, rfl⟩ := exists_step a
  rw [Nat.add_assoc] at hhigh ⊢
  rw [rankUnits_step (low.imp_right (by omega)) high] at hhigh ⊢
  rw [rankUnits_step low high.le] at hlow ⊢
  have hden : 0 < den := by
    rcases Nat.eq_zero_or_pos den with rfl | hpos
    · omega
    · exact hpos
  -- the number of whole steps, and with it the spacing
  have hfloor : m * 2 ^ e ≤ num / den := (Nat.le_div_iff_mul_le hden).2 hlow
  have hceil : num / den < (m + 1) * 2 ^ e := (Nat.div_lt_iff_lt_mul hden).2 hhigh
  have hspacing : (num / den).log2 - 52 = e := by
    rcases Nat.lt_or_ge m (2 ^ 52) with hm | hm
    · obtain rfl : e = 0 := by omega
      rcases Nat.eq_zero_or_pos (num / den) with hzero | hpos
      · rw [hzero, Nat.log2_zero]
      · have := (Nat.log2_lt hpos.ne').2 (show num / den < 2 ^ 52 by omega)
        omega
    · have hlow' : 2 ^ (52 + e) ≤ num / den := by
        rw [Nat.pow_add]
        exact (Nat.mul_le_mul_right _ hm).trans hfloor
      have hhigh' : num / den < 2 ^ (53 + e) := by
        rw [Nat.pow_add]
        exact hceil.trans_le (Nat.mul_le_mul_right _ high)
      have hne : num / den ≠ 0 := (Nat.two_pow_pos (52 + e)).trans_le hlow' |>.ne'
      have hge := (Nat.le_log2 hne).2 hlow'
      have hlt := (Nat.log2_lt hne).2 hhigh'
      omega
  have hsteps : num / (den * 2 ^ e) = m := by
    refine Nat.div_eq_of_lt_le ?_ ?_
    · rwa [Nat.mul_comm den, ← Nat.mul_assoc]
    · rwa [Nat.mul_comm den, ← Nat.mul_assoc]
  have hparity : (e * 2 ^ 52 + m) % 2 = m % 2 := by omega
  have hsum : (m * 2 ^ e + (m + 1) * 2 ^ e) * den = (2 * m + 1) * (den * 2 ^ e) := by ring
  have hrest : den * 2 ^ e * m + num % (den * 2 ^ e) = num := hsteps ▸ Nat.div_add_mod _ _
  rw [nearestRank_eq, hspacing, divHalfEven, hsteps, hsum, hparity]
  generalize num % (den * 2 ^ e) = rest at hrest
  generalize den * 2 ^ e = step at hrest
  have hmiddle : (2 * m + 1) * step = 2 * (step * m) + step := by ring
  rw [hmiddle]
  split_ifs <;> omega

/-- A number lies between the magnitudes of a rank and of the next one. -/
structure Brackets (q : ℚ) (a : ℕ) : Prop where
  below : magnitude a ≤ q
  above : q < magnitude (a + 1)

theorem exists_brackets {q : ℚ} (hq : 0 ≤ q) : ∃ a, Brackets q a := by
  -- the first rank past the number is not the rank of zero
  have hsome : ∃ r, q < magnitude r := by
    obtain ⟨n, hn⟩ := exists_nat_gt (q * one)
    exact ⟨n, (lt_div_iff₀ cast_one_pos).2
      (hn.trans_le (Nat.cast_le.2 rankUnits_strictMono.le_apply))⟩
  have hfirst := Nat.find_spec hsome
  cases hr : Nat.find hsome with
  | zero =>
    rw [hr, magnitude_zero] at hfirst
    exact absurd hfirst (not_lt.2 hq)
  | succ a =>
    rw [hr] at hfirst
    exact ⟨a, not_lt.1 (Nat.find_min hsome (hr ▸ Nat.lt_succ_self a)), hfirst⟩

/-- Between two ranks the nearer one is taken, and in the middle the even one. -/
theorem rankNear_of_brackets {q : ℚ} {a : ℕ} (h : Brackets q a) :
    rankNear q =
      if 2 * q < magnitude a + magnitude (a + 1) then a
      else if magnitude a + magnitude (a + 1) < 2 * q then a + 1
      else a + a % 2 := by
  obtain ⟨hbelow, habove⟩ := h
  have hq : 0 ≤ q * one := mul_nonneg ((magnitude_nonneg a).trans hbelow) cast_one_pos.le
  obtain ⟨num, den, hden, hquotient⟩ : ∃ num den : ℕ, 0 < den ∧ q = (num : ℚ) / den / one := by
    refine ⟨(q * one).num.toNat, (q * one).den, (q * one).den_pos, ?_⟩
    have hnum : (((q * one).num.toNat : ℤ) : ℚ) = (q * one).num := by
      rw [Int.toNat_of_nonneg (Rat.num_nonneg.2 hq)]
    rw [← Int.cast_natCast (q * one).num.toNat, hnum, Rat.num_div_den,
      mul_div_cancel_right₀ _ one_ne_zero]
  have hcompare (u : ℕ) : ((u : ℚ) / one ≤ q ↔ u * den ≤ num) ∧
      (q < (u : ℚ) / one ↔ num < u * den) ∧ ((u : ℚ) / one < 2 * q ↔ u * den < 2 * num) ∧
        (2 * q < (u : ℚ) / one ↔ 2 * num < u * den) := by
    have hdenq : (0 : ℚ) < den := Nat.cast_pos.2 hden
    rw [hquotient, ← mul_div_assoc, ← mul_div_assoc, div_le_div_iff_of_pos_right cast_one_pos,
      div_lt_div_iff_of_pos_right cast_one_pos, div_lt_div_iff_of_pos_right cast_one_pos,
      div_lt_div_iff_of_pos_right cast_one_pos, le_div_iff₀ hdenq, div_lt_iff₀ hdenq,
      lt_div_iff₀ hdenq, div_lt_iff₀ hdenq]
    norm_cast
  have hsum : magnitude a + magnitude (a + 1) =
      ((rankUnits a + rankUnits (a + 1) : ℕ) : ℚ) / one := by
    rw [magnitude, magnitude, Nat.cast_add, add_div]
  have hnear := nearestRank_of_between ((hcompare _).1.1 hbelow) ((hcompare _).2.1.1 habove)
  rw [nearestRank_eq_rankNear num hden, ← hquotient] at hnear
  rw [hnear, hsum]
  simp only [(hcompare _).2.2.1, (hcompare _).2.2.2]

theorem Brackets.rankNear_cases {q : ℚ} {a : ℕ} (h : Brackets q a) :
    rankNear q = a ∨ rankNear q = a + 1 := by
  rw [rankNear_of_brackets h]
  split_ifs <;> omega

theorem brackets_magnitude (r : ℕ) : Brackets (magnitude r) r :=
  ⟨le_rfl, magnitude_strictMono (Nat.lt_succ_self r)⟩

/-- Nothing is lost of a number that has a rank. -/
theorem rankNear_magnitude (r : ℕ) : rankNear (magnitude r) = r := by
  have hnext := (brackets_magnitude r).above
  rw [rankNear_of_brackets (brackets_magnitude r), if_pos (by linarith)]

/-- A greater number has no smaller rank. -/
theorem rankNear_mono {p q : ℚ} (hp : 0 ≤ p) (hpq : p ≤ q) : rankNear p ≤ rankNear q := by
  obtain ⟨a, ha⟩ := exists_brackets hp
  obtain ⟨b, hb⟩ := exists_brackets (hp.trans hpq)
  have hab : a < b + 1 :=
    magnitude_lt_magnitude.1 ((ha.below.trans hpq).trans_lt hb.above)
  rcases Nat.lt_succ_iff_lt_or_eq.1 hab with hlt | rfl
  · have hnear := ha.rankNear_cases
    have hnear' := hb.rankNear_cases
    omega
  · -- between the same two ranks the halves decide alike
    rw [rankNear_of_brackets ha, rankNear_of_brackets hb]
    split_ifs <;> first | omega | linarith

/-- What lies between two numbers with the same nearest rank has this one too. -/
theorem rankNear_of_between {p q t : ℚ} {r : ℕ} (hp : 0 ≤ p) (hpt : p ≤ t) (htq : t ≤ q)
    (hpr : rankNear p = r) (hqr : rankNear q = r) : rankNear t = r :=
  le_antisymm (hqr ▸ rankNear_mono (hp.trans hpt) htq) (hpr ▸ rankNear_mono hp hpt)

/-- A number is no nearer to the rank behind its nearest one. -/
theorem two_mul_le_of_rankNear {q : ℚ} {r : ℕ} (h : rankNear q = r) :
    2 * q ≤ magnitude r + magnitude (r + 1) := by
  by_contra hmore
  have hstep : magnitude r < magnitude (r + 1) := magnitude_strictMono (Nat.lt_succ_self r)
  rcases lt_or_ge q (magnitude (r + 1)) with hlt | hge
  · have hbrackets : Brackets q r := ⟨by linarith, hlt⟩
    rw [rankNear_of_brackets hbrackets, if_neg (by linarith), if_pos (by linarith)] at h
    omega
  · have hrank := rankNear_mono (magnitude_nonneg (r + 1)) hge
    rw [rankNear_magnitude, h] at hrank
    omega

/-! ### The nearest double -/

/-- No rank is nearer to a number than its nearest one. -/
theorem abs_magnitude_rankNear_le {q : ℚ} (hq : 0 ≤ q) (r : ℕ) :
    |magnitude (rankNear q) - q| ≤ |magnitude r - q| := by
  obtain ⟨a, ha⟩ := exists_brackets hq
  have hbelow := ha.below
  have habove := ha.above
  have hnear := rankNear_of_brackets ha
  have hcases := ha.rankNear_cases
  rcases Nat.lt_or_ge a r with hr | hr
  · have hle : magnitude (a + 1) ≤ magnitude r := magnitude_le_magnitude.2 hr
    rw [abs_of_nonneg (show 0 ≤ magnitude r - q by linarith)]
    rcases hcases with h | h
    · rw [h, abs_of_nonpos (by linarith)]
      by_contra hfar
      rw [if_neg (by linarith), if_pos (by linarith), h] at hnear
      omega
    · rw [h, abs_of_nonneg (by linarith)]
      linarith
  · have hle : magnitude r ≤ magnitude a := magnitude_le_magnitude.2 hr
    rw [abs_of_nonpos (show magnitude r - q ≤ 0 by linarith)]
    rcases hcases with h | h
    · rw [h, abs_of_nonpos (by linarith)]
      linarith
    · rw [h, abs_of_nonneg (by linarith)]
      by_contra hfar
      rw [if_pos (by linarith), h] at hnear
      omega

/-- If another rank is as near as the nearest one, this one is even and the other one odd. -/
theorem parity_of_abs_eq {q : ℚ} (hq : 0 ≤ q) {r : ℕ} (hr : r ≠ rankNear q)
    (h : |magnitude (rankNear q) - q| = |magnitude r - q|) :
    rankNear q % 2 = 0 ∧ r % 2 = 1 := by
  obtain ⟨a, ha⟩ := exists_brackets hq
  have hbelow := ha.below
  have habove := ha.above
  have hnear := rankNear_of_brackets ha
  rcases ha.rankNear_cases with hcase | hcase
  · rw [hcase, abs_of_nonpos (by linarith)] at h
    rcases Nat.lt_trichotomy r a with hlt | heq | hgt
    · have hless : magnitude r < magnitude a := magnitude_lt_magnitude.2 hlt
      rw [abs_of_nonpos (by linarith)] at h
      linarith
    · exact absurd (heq.trans hcase.symm) hr
    · have hle : magnitude (a + 1) ≤ magnitude r := magnitude_le_magnitude.2 hgt
      rw [abs_of_nonneg (by linarith)] at h
      have htie : ¬magnitude a + magnitude (a + 1) < 2 * q := by
        intro hmore
        rw [if_neg (by linarith), if_pos hmore] at hnear
        omega
      -- the number lies in the middle, so the other rank is the next one
      have hnext : r = a + 1 := magnitude_strictMono.injective (by linarith)
      rw [if_neg (by linarith), if_neg htie] at hnear
      omega
  · rw [hcase, abs_of_nonneg (by linarith)] at h
    rcases Nat.lt_trichotomy r (a + 1) with hlt | heq | hgt
    · have hle : magnitude r ≤ magnitude a := magnitude_le_magnitude.2 (by omega)
      rw [abs_of_nonpos (by linarith)] at h
      have htie : ¬2 * q < magnitude a + magnitude (a + 1) := by
        intro hless
        rw [if_pos hless] at hnear
        omega
      have hprevious : r = a := magnitude_strictMono.injective (by linarith)
      rw [if_neg htie, if_neg (by linarith)] at hnear
      omega
    · exact absurd (heq.trans hcase.symm) hr
    · have hmore : magnitude (a + 1) < magnitude r := magnitude_lt_magnitude.2 hgt
      rw [abs_of_nonneg (by linarith)] at h
      linarith

/-- The numbers from here on are rounded to an infinity: it is half a step past the greatest finite
magnitude. -/
def overflow : ℚ := 2 ^ 1024 - 2 ^ 970

/-- The double nearest to a number that is not negative: no finite one is nearer, and if another one
is as near, its last bit is not set.  From the overflow on it is infinite. -/
def IsNearest (q : ℚ) : Double → Prop
  | .finite s r => s = false ∧ q < overflow ∧ ∀ r' : Fin rankLimit,
      |magnitude r - q| ≤ |magnitude r' - q| ∧
        (|magnitude r - q| = |magnitude r' - q| → r' = r ∨ r.val % 2 = 0)
  | .infinite s => s = false ∧ overflow ≤ q
  | .nan => False

/-- The double of a rank, infinite past the last one. -/
def ofRank (s : Bool) (r : ℕ) : Double :=
  if h : r < rankLimit then .finite s ⟨r, h⟩ else .infinite s

theorem ofRank_of_lt {r : ℕ} (s : Bool) (h : r < rankLimit) : ofRank s r = .finite s ⟨r, h⟩ :=
  dif_pos h

theorem ofRank_of_le {r : ℕ} (s : Bool) (h : rankLimit ≤ r) : ofRank s r = .infinite s :=
  dif_neg (Nat.not_lt.2 h)

/-- Past the last rank all ranks have the same double. -/
theorem ofRank_inj {r r' : ℕ} (s : Bool) :
    ofRank s r = ofRank s r' ↔ r = r' ∨ rankLimit ≤ r ∧ rankLimit ≤ r' := by
  rcases Nat.lt_or_ge r rankLimit with hr | hr
  · rcases Nat.lt_or_ge r' rankLimit with hr' | hr'
    · rw [ofRank_of_lt s hr, ofRank_of_lt s hr']
      simp only [finite.injEq, true_and, Fin.mk.injEq]
      omega
    · rw [ofRank_of_lt s hr, ofRank_of_le s hr']
      simp only [reduceCtorEq, false_iff]
      omega
  · rcases Nat.lt_or_ge r' rankLimit with hr' | hr'
    · rw [ofRank_of_le s hr, ofRank_of_lt s hr']
      simp only [reduceCtorEq, false_iff]
      omega
    · rw [ofRank_of_le s hr, ofRank_of_le s hr']
      exact iff_of_true rfl (.inr ⟨hr, hr'⟩)

theorem finite_eq_ofRank_iff (s : Bool) {r : Fin rankLimit} {p : ℕ} :
    finite s r = ofRank s p ↔ r.val = p := by
  have hr := r.isLt
  rw [← ofRank_of_lt s hr, ofRank_inj]
  omega

theorem round_eq_ofRank (s : Bool) (num : ℕ) {den : ℕ} (hden : 0 < den) :
    round s num den = ofRank s (rankNear (num / den / one)) := by
  rw [← nearestRank_eq_rankNear num hden]
  rfl

theorem magnitude_rankLimit : magnitude rankLimit = 2 ^ 1024 := by
  have hrank : rankLimit = 2046 * 2 ^ 52 + 2 ^ 52 := rfl
  rw [hrank, magnitude_step (.inr le_rfl) (by decide), one_eq, Nat.cast_pow, Nat.cast_pow,
    Nat.cast_ofNat, div_eq_iff (by positivity), ← pow_add, ← pow_add]

/-- The overflow lies in the middle between the last rank and the next one. -/
theorem two_mul_overflow :
    2 * overflow = magnitude (rankLimit - 1) + magnitude (rankLimit - 1 + 1) := by
  have hlast : rankLimit - 1 = 2045 * 2 ^ 52 + (2 ^ 53 - 1) := rfl
  have hmagnitude : magnitude (rankLimit - 1) = 2 ^ 1024 - 2 ^ 971 := by
    rw [hlast, magnitude_step (.inr (by decide)) (by decide), one_eq, Nat.cast_pow, Nat.cast_ofNat,
      div_eq_iff (by positivity), sub_mul, ← pow_add, ← pow_add, Nat.cast_sub (by decide),
      Nat.cast_pow, Nat.cast_ofNat, Nat.cast_one, sub_mul, one_mul, ← pow_add]
  rw [hmagnitude, Nat.sub_add_cancel (by decide), magnitude_rankLimit, overflow,
    show (2 : ℚ) ^ 971 = 2 * 2 ^ 970 from pow_succ' 2 970, mul_sub, two_mul ((2 : ℚ) ^ 1024),
    add_sub_right_comm]

theorem rankNear_lt_rankLimit_iff {q : ℚ} (hq : 0 ≤ q) : rankNear q < rankLimit ↔ q < overflow := by
  have hlimit : rankLimit - 1 + 1 = rankLimit := Nat.sub_add_cancel (by decide)
  have hmiddle := two_mul_overflow
  have hnonneg : 0 ≤ magnitude (rankLimit - 1) := magnitude_nonneg _
  have hstep : magnitude (rankLimit - 1) < magnitude (rankLimit - 1 + 1) :=
    magnitude_strictMono (Nat.lt_succ_self _)
  constructor
  · -- the overflow itself goes up, since the last rank is odd
    intro h
    by_contra hmore
    have hbrackets : Brackets overflow (rankLimit - 1) := ⟨by linarith, by linarith⟩
    have hmono := rankNear_mono (show 0 ≤ overflow by linarith) (not_lt.1 hmore)
    rw [rankNear_of_brackets hbrackets, if_neg (by linarith), if_neg (by linarith)] at hmono
    have hodd : (rankLimit - 1) % 2 = 1 := by decide
    omega
  · intro h
    obtain ⟨a, ha⟩ := exists_brackets hq
    have hle : a ≤ rankLimit - 1 := by
      rw [← Nat.lt_succ_iff, ← magnitude_lt_magnitude]
      exact ha.below.trans_lt (by linarith)
    rcases Nat.lt_or_eq_of_le hle with hlt | rfl
    · have := ha.rankNear_cases
      omega
    · rw [rankNear_of_brackets ha, if_pos (by linarith)]
      omega

/-- **The nearest double.**  A double is nearest to a number just when it has the rank nearest to
this number. -/
theorem isNearest_iff {q : ℚ} (hq : 0 ≤ q) {x : Double} :
    IsNearest q x ↔ x = ofRank false (rankNear q) := by
  have hlimit := rankNear_lt_rankLimit_iff hq
  rw [ofRank]
  constructor
  · intro h
    cases x with
    | nan => exact h.elim
    | infinite s =>
      obtain ⟨rfl, hmore⟩ := h
      rw [dif_neg (by rw [hlimit]; exact not_lt.2 hmore)]
    | finite s r =>
      obtain ⟨rfl, hless, hnear⟩ := h
      have hrank := hlimit.2 hless
      rw [dif_pos hrank]
      congr 1
      by_contra hne
      have hne' : r.val ≠ rankNear q := fun heq => hne (Fin.ext heq)
      obtain ⟨hle, htie⟩ := hnear ⟨rankNear q, hrank⟩
      have hequal := le_antisymm (abs_magnitude_rankNear_le hq r) hle
      obtain ⟨-, hodd⟩ := parity_of_abs_eq hq hne' hequal
      rcases htie hequal.symm with heq | heven
      · exact hne heq.symm
      · omega
  · rintro rfl
    split_ifs with hrank
    · refine ⟨rfl, hlimit.1 hrank, fun r' => ⟨abs_magnitude_rankNear_le hq r', fun htie => ?_⟩⟩
      by_cases heq : r'.val = rankNear q
      · exact .inl (Fin.ext heq)
      · exact .inr (parity_of_abs_eq hq heq htie).1
    · exact ⟨rfl, not_lt.1 fun hless => hrank (hlimit.2 hless)⟩

end ActionTree.Double
