import ActionTree.Proofs.Decimal.Rounding
import ActionTree.Proofs.Decimal.Shortest
import ActionTree.Proofs.Double.Nearest
import Mathlib.Tactic.FieldSimp
import Mathlib.Tactic.NormNum

/-!
# Shortest decimals have the fewest digits

The numbers that a rank is nearest to lie without a gap.  So a grid has one of them just when one of
its two multiples next to the magnitude is one, and the search finds the coarsest grid that has any.
A decimal on this grid has the fewest digits: with fewer of them another one would have a power of
ten between itself and the decimal, which lies on a coarser grid.

* `Decimal.value` - the number that a decimal stands for;
* `Decimal.IsCoarsest` - the nearest decimal on the coarsest grid with any;
* `Decimal.isCoarsest_shortest` - the search finds it;
* `Decimal.IsCoarsest.le_length`, `Decimal.IsCoarsest.distance_le` - it has the fewest digits, and
  with as many no other one is nearer;
* `Decimal.IsCoarsest.pow_le_value_iff` - where it stands among the powers of ten.
-/

namespace ActionTree.Decimal

open Double

/-! ### Values -/

/-- The number that a decimal stands for. -/
def value (d : Decimal) : ℚ := d.coefficient * 10 ^ d.exponent

theorem ten_zpow_pos (e : ℤ) : (0 : ℚ) < 10 ^ e := zpow_pos (by norm_num) e

theorem value_nonneg (d : Decimal) : 0 ≤ d.value :=
  mul_nonneg (Nat.cast_nonneg _) (ten_zpow_pos _).le

theorem value_one (e : ℤ) : value ⟨1, e⟩ = 10 ^ e := by
  rw [value, Nat.cast_one, one_mul]

theorem value_le_value {c c' : ℕ} (e : ℤ) (h : c ≤ c') : value ⟨c, e⟩ ≤ value ⟨c', e⟩ :=
  mul_le_mul_of_nonneg_right (Nat.cast_le.2 h) (ten_zpow_pos e).le

theorem value_succ (c : ℕ) (e : ℤ) : value ⟨c + 1, e⟩ = value ⟨c, e⟩ + 10 ^ e := by
  rw [value, Nat.cast_succ, add_mul, one_mul]
  rfl

theorem cast_ten_pow (n : ℕ) : ((Nat.pow 10 n : ℕ) : ℚ) = 10 ^ (n : ℤ) :=
  (Nat.cast_pow 10 n).trans (zpow_natCast 10 n).symm

/-- A power of ten as a quotient of whole ones, of which one is 1. -/
theorem ten_zpow_eq (e : ℤ) :
    (10 : ℚ) ^ e = (Nat.pow 10 e.toNat : ℕ) / (Nat.pow 10 (-e).toNat : ℕ) := by
  rw [cast_ten_pow, cast_ten_pow, ← zpow_sub₀ (by norm_num)]
  congr 1
  omega

/-- A decimal reads back as the rank nearest to its value. -/
theorem nearestRank_eq (d : Decimal) : d.nearestRank = rankNear d.value := by
  have hpos : 0 < d.denominator := ten_pow_pos _
  have hvalue : (d.numerator : ℚ) / d.denominator / one = d.value := by
    rw [numerator, denominator, value, ten_zpow_eq, Nat.cast_mul, Nat.cast_mul, div_right_comm,
      mul_div_cancel_right₀ _ Double.one_ne_zero, mul_div_assoc]
  rw [nearestRank, nearestRank_eq_rankNear _ hpos, hvalue]

/-! ### One grid -/

/-- A decimal that reads back as a rank and is as near to it as any other on its grid. -/
structure IsClosest (r : ℕ) (d : Decimal) : Prop where
  reads : d.nearestRank = r
  closest : ∀ c, nearestRank ⟨c, d.exponent⟩ = r →
    |d.value - magnitude r| ≤ |value ⟨c, d.exponent⟩ - magnitude r|

section Grid

variable {r below : ℕ} {e : ℤ}

/-- Below the magnitude the first multiple stands for all others: if one reads back so does it, and
it is nearer. -/
theorem reads_below (hbelow : value ⟨below, e⟩ ≤ magnitude r) {c : ℕ} (hc : c ≤ below)
    (h : nearestRank ⟨c, e⟩ = r) : nearestRank ⟨below, e⟩ = r ∧
      |value ⟨below, e⟩ - magnitude r| ≤ |value ⟨c, e⟩ - magnitude r| := by
  have hle := value_le_value e hc
  rw [nearestRank_eq] at h ⊢
  refine ⟨rankNear_of_between (value_nonneg _) hle hbelow h (rankNear_magnitude r), ?_⟩
  rw [abs_of_nonpos (by linarith), abs_of_nonpos (by linarith)]
  linarith

/-- Above the magnitude likewise. -/
theorem reads_above (habove : magnitude r ≤ value ⟨below, e⟩) {c : ℕ} (hc : below ≤ c)
    (h : nearestRank ⟨c, e⟩ = r) : nearestRank ⟨below, e⟩ = r ∧
      |value ⟨below, e⟩ - magnitude r| ≤ |value ⟨c, e⟩ - magnitude r| := by
  have hle := value_le_value e hc
  rw [nearestRank_eq] at h ⊢
  refine ⟨rankNear_of_between (magnitude_nonneg r) habove hle (rankNear_magnitude r) h, ?_⟩
  rw [abs_of_nonneg (by linarith), abs_of_nonneg (by linarith)]
  linarith

theorem choose_spec (tie : Tie) (below rest den : ℕ) :
    tie.choose below rest den = below ∧ 2 * rest ≤ den ∨
      tie.choose below rest den = below + 1 ∧ den ≤ 2 * rest := by
  cases tie <;> simp only [Tie.choose] <;> split_ifs <;> omega

/-- The multiple chosen for what is left above one of them is the nearer of the two next to it. -/
theorem abs_choose_le (tie : Tie) {rest den : ℕ} (hrest : rest < den)
    (hmagnitude : magnitude r = value ⟨below, e⟩ + rest / den * 10 ^ e) :
    |value ⟨tie.choose below rest den, e⟩ - magnitude r| ≤ |value ⟨below, e⟩ - magnitude r| ∧
      |value ⟨tie.choose below rest den, e⟩ - magnitude r| ≤
        |value ⟨below + 1, e⟩ - magnitude r| := by
  have hpow := ten_zpow_pos e
  have hden : (0 : ℚ) < den := Nat.cast_pos.2 (Nat.zero_lt_of_lt hrest)
  have hpart : (0 : ℚ) ≤ rest / den := by positivity
  have hpart' : (rest : ℚ) / den < 1 := (div_lt_one hden).2 (Nat.cast_lt.2 hrest)
  have hdistance : |value ⟨below, e⟩ - magnitude r| = rest / den * 10 ^ e := by
    rw [hmagnitude, abs_of_nonpos (by nlinarith)]
    ring
  have hdistance' : |value ⟨below + 1, e⟩ - magnitude r| = (1 - rest / den) * 10 ^ e := by
    rw [hmagnitude, value_succ, abs_of_nonneg (by nlinarith)]
    ring
  rcases choose_spec tie below rest den with ⟨hchoice, hhalf⟩ | ⟨hchoice, hhalf⟩
  · have hle : 2 * ((rest : ℚ) / den) ≤ 1 := by
      rw [← mul_div_assoc, div_le_one hden]
      exact_mod_cast hhalf
    rw [hchoice, hdistance, hdistance']
    exact ⟨le_rfl, mul_le_mul_of_nonneg_right (by linarith) hpow.le⟩
  · have hle : 1 ≤ 2 * ((rest : ℚ) / den) := by
      rw [← mul_div_assoc, one_le_div hden]
      exact_mod_cast hhalf
    rw [hchoice, hdistance, hdistance']
    exact ⟨mul_le_mul_of_nonneg_right (by linarith) hpow.le, le_rfl⟩

/-- A magnitude of `num / den` steps: the whole steps and the part of one that is left. -/
theorem magnitude_split {num den : ℕ} (hden : 0 < den)
    (hsteps : magnitude r = num / den * (10 : ℚ) ^ e) :
    magnitude r = value ⟨num / den, e⟩ + (num % den : ℕ) / den * 10 ^ e := by
  have hdenq : (den : ℚ) ≠ 0 := Nat.cast_ne_zero.2 hden.ne'
  have hsplit : (num : ℚ) = den * (num / den : ℕ) + (num % den : ℕ) := by
    exact_mod_cast (Nat.div_add_mod num den).symm
  rw [hsteps, value]
  nth_rewrite 1 [hsplit]
  field_simp

/-- The magnitude lies between two multiples. -/
theorem magnitude_between {rest den : ℕ} (hrest : rest < den)
    (hmagnitude : magnitude r = value ⟨below, e⟩ + rest / den * 10 ^ e) :
    value ⟨below, e⟩ ≤ magnitude r ∧ magnitude r ≤ value ⟨below + 1, e⟩ := by
  have hpow := ten_zpow_pos e
  have hpart : (0 : ℚ) ≤ rest / den := by positivity
  have hpart' : (rest : ℚ) / den ≤ 1 := div_le_one_of_le₀ (Nat.cast_le.2 hrest.le) den.cast_nonneg
  rw [hmagnitude, value_succ]
  exact ⟨le_add_of_nonneg_right (mul_nonneg hpart hpow.le),
    add_le_add_right (mul_le_of_le_one_left hpow.le hpart') _⟩

end Grid

/-- The magnitude in steps of a grid. -/
theorem magnitude_eq_steps (r : ℕ) (e : ℤ) :
    magnitude r = (rankUnits r * Nat.pow 10 (-e).toNat : ℕ) /
      (one * Nat.pow 10 e.toNat : ℕ) * (10 : ℚ) ^ e := by
  have hpow (n : ℕ) : ((Nat.pow 10 n : ℕ) : ℚ) ≠ 0 := Nat.cast_ne_zero.2 (ten_pow_pos n).ne'
  have hone := Double.one_ne_zero
  have hhigh := hpow e.toNat
  have hlow := hpow (-e).toNat
  rw [ten_zpow_eq, magnitude, Nat.cast_mul, Nat.cast_mul]
  field_simp

/-- What is searched for on a grid: a closest decimal on it, if any on it reads back. -/
theorem neighbour?_spec (tie : Tie) (r : ℕ) (e : ℤ) :
    (∃ c, neighbour? tie r e = some ⟨c, e⟩ ∧ IsClosest r ⟨c, e⟩) ∨
      neighbour? tie r e = none ∧ ∀ c, nearestRank ⟨c, e⟩ ≠ r := by
  have hsteps := magnitude_eq_steps r e
  have hden : 0 < one * Nat.pow 10 e.toNat := Nat.mul_pos Double.one_pos (ten_pow_pos _)
  rw [neighbour?]
  generalize rankUnits r * Nat.pow 10 (-e).toNat = num at hsteps
  generalize one * Nat.pow 10 e.toNat = den at hsteps hden
  have hrest : num % den < den := Nat.mod_lt num hden
  have hmagnitude := magnitude_split hden hsteps
  obtain ⟨hbelow, habove⟩ := magnitude_between hrest hmagnitude
  have hchoose := abs_choose_le tie hrest hmagnitude
  -- any multiple that reads back is behind one of the two
  have hcases (c : ℕ) (hc : nearestRank ⟨c, e⟩ = r) :
      (nearestRank ⟨num / den, e⟩ = r ∧
        |value ⟨num / den, e⟩ - magnitude r| ≤ |value ⟨c, e⟩ - magnitude r|) ∨
      (nearestRank ⟨num / den + 1, e⟩ = r ∧
        |value ⟨num / den + 1, e⟩ - magnitude r| ≤ |value ⟨c, e⟩ - magnitude r|) := by
    rcases Nat.lt_or_ge (num / den) c with hlt | hge
    · exact .inr (reads_above habove hlt hc)
    · exact .inl (reads_below hbelow hge hc)
  rw [between?]
  split_ifs with hdown hup hup
  · refine .inl ⟨_, rfl, ?_, fun c hc => ?_⟩
    · rcases tie.choose_cases (num / den) (num % den) den with hchoice | hchoice
      · rw [hchoice, hdown]
      · rw [hchoice, hup]
    · rcases hcases c hc with ⟨-, hle⟩ | ⟨-, hle⟩
      · exact hchoose.1.trans hle
      · exact hchoose.2.trans hle
  · refine .inl ⟨_, rfl, hdown, fun c hc => ?_⟩
    rcases hcases c hc with ⟨-, hle⟩ | ⟨habsurd, -⟩
    · exact hle
    · exact absurd habsurd hup
  · refine .inl ⟨_, rfl, hup, fun c hc => ?_⟩
    rcases hcases c hc with ⟨habsurd, -⟩ | ⟨-, hle⟩
    · exact absurd habsurd hdown
    · exact hle
  · refine .inr ⟨rfl, fun c hc => ?_⟩
    rcases hcases c hc with ⟨habsurd, -⟩ | ⟨habsurd, -⟩
    · exact hdown habsurd
    · exact hup habsurd

/-! ### The search -/

/-- A search ends with its first result, or finds none in its places. -/
theorem firstFrom_spec {α : Type} (search : ℤ → Option α) (otherwise : α) (fuel : ℕ) (e : ℤ) :
    (∃ i, search i = some (firstFrom search otherwise fuel e) ∧
        ∀ j, i < j → j ≤ e → search j = none) ∨
      firstFrom search otherwise fuel e = otherwise ∧
        ∀ j, e - fuel < j → j ≤ e → search j = none := by
  induction fuel generalizing e with
  | zero => exact .inr ⟨rfl, fun j hlow hhigh => by omega⟩
  | succ fuel ih =>
    rw [firstFrom]
    cases hsearch : search e with
    | some a => exact .inl ⟨e, hsearch, fun j hlow hhigh => by omega⟩
    | none =>
      have hfirst (j : ℤ) (hbefore : j ≤ e - 1 → search j = none) (hhigh : j ≤ e) :
          search j = none := by
        rcases Int.lt_or_eq_of_le hhigh with hlt | rfl
        · exact hbefore (by omega)
        · exact hsearch
      rcases ih (e - 1) with ⟨i, hi, hnone⟩ | ⟨hotherwise, hnone⟩
      · exact .inl ⟨i, hi, fun j hlow => hfirst j (hnone j hlow)⟩
      · exact .inr ⟨hotherwise, fun j hlow => hfirst j (hnone j (by push_cast at hlow; omega))⟩

/-- The exact expansion stands for the magnitude itself. -/
theorem value_expansion (r : ℕ) : (expansion r).value = magnitude r := by
  obtain ⟨n, hunit, hone, hexpansion⟩ := exists_places
  have hfive : ((Nat.pow 5 n : ℕ) : ℚ) = 5 ^ n := Nat.cast_pow 5 n
  have hten : (10 : ℚ) ^ n = 5 ^ n * 2 ^ n := by
    rw [← mul_pow]
    norm_num
  rw [hexpansion, value, hunit, magnitude, hone, zpow_neg, zpow_natCast, hten, Nat.cast_mul, hfive,
    Nat.cast_pow, Nat.cast_ofNat]
  field_simp

theorem isClosest_expansion (r : ℕ) : IsClosest r (expansion r) := by
  refine ⟨nearestRank_expansion r, fun c _ => ?_⟩
  rw [value_expansion, sub_self, abs_zero]
  exact abs_nonneg _

/-- A rank's integer part has as many digits as its magnitude has in front of the point. -/
theorem magnitude_lt_integerDigits (r : ℕ) : magnitude r < 10 ^ (integerDigits r : ℤ) := by
  have hfloor : rankUnits r / one < 10 ^ integerDigits r :=
    (Nat.length_toDigits_le_iff (by decide) Nat.length_toDigits_pos).1 le_rfl
  have hunits : rankUnits r < 10 ^ integerDigits r * one :=
    (Nat.div_lt_iff_lt_mul Double.one_pos).1 hfloor
  rw [magnitude, div_lt_iff₀ cast_one_pos, zpow_natCast]
  exact_mod_cast hunits

/-- No grid past the digits of the integer part has a multiple that reads back. -/
theorem le_integerDigits {r c : ℕ} {e : ℤ} (hr : r ≠ 0) (h : nearestRank ⟨c, e⟩ = r) :
    e ≤ integerDigits r := by
  by_contra hlarge
  have hc : 1 ≤ c := by
    refine Nat.pos_of_ne_zero fun hzero => hr ?_
    rw [← h]
    exact nearestRank_of_coefficient hzero
  -- such a multiple is past the next rank
  have hpow : (10 : ℚ) ^ (integerDigits r : ℤ) * 10 ≤ 10 ^ e := by
    rw [← zpow_add_one₀ (by norm_num)]
    exact zpow_le_zpow_right₀ (by norm_num) (by omega)
  have hvalue : (10 : ℚ) ^ e ≤ value ⟨c, e⟩ := value_one e ▸ value_le_value e hc
  have hless := magnitude_lt_integerDigits r
  have hnonneg := magnitude_nonneg r
  have hnext : magnitude (r + 1) ≤ value ⟨c, e⟩ := by linarith [magnitude_succ_le hr]
  have hrank := rankNear_mono (magnitude_nonneg (r + 1)) hnext
  rw [rankNear_magnitude, ← nearestRank_eq, h] at hrank
  omega

/-- The closest decimal on the coarsest grid that has one that reads back. -/
structure IsCoarsest (r : ℕ) (d : Decimal) : Prop extends IsClosest r d where
  coarsest : ∀ c e, nearestRank ⟨c, e⟩ = r → e ≤ d.exponent

/-- The search finds a closest decimal on the coarsest grid. -/
theorem isCoarsest_shortest (tie : Tie) {r : ℕ} (hr : r ≠ 0) : IsCoarsest r (shortest tie r) := by
  have hnone {c : ℕ} {e : ℤ} (h : nearestRank ⟨c, e⟩ = r) (hsearch : neighbour? tie r e = none) :
      False := by
    rcases neighbour?_spec tie r e with ⟨c', hsome, -⟩ | ⟨-, hall⟩
    · rw [hsearch] at hsome
      cases hsome
    · exact hall c h
  rw [shortest]
  rcases firstFrom_spec (neighbour? tie r) (expansion r) (integerDigits r + 1074)
    (integerDigits r) with ⟨i, hfirst, hbefore⟩ | ⟨hend, hbefore⟩
  · rcases neighbour?_spec tie r i with ⟨c, hsome, hclosest⟩ | ⟨hnothing, -⟩
    · rw [hsome] at hfirst
      rw [← Option.some.inj hfirst]
      refine ⟨hclosest, fun c' e h => ?_⟩
      by_contra hfiner
      exact hnone h (hbefore e (not_le.1 hfiner) (le_integerDigits hr h))
    · rw [hnothing] at hfirst
      cases hfirst
  · rw [hend]
    refine ⟨isClosest_expansion r, fun c' e h => ?_⟩
    by_contra hfiner
    have hexponent : (expansion r).exponent = -1074 := rfl
    exact hnone h (hbefore e (by push_cast; omega) (le_integerDigits hr h))

/-! ### Digits -/

/-- A number has as many digits as the powers of ten around it say. -/
theorem length_toDigits_eq_iff {c k : ℕ} (hc : c ≠ 0) :
    (Nat.toDigits 10 c).length = k ↔ 0 < k ∧ 10 ^ (k - 1) ≤ c ∧ c < 10 ^ k := by
  have hpos : 0 < (Nat.toDigits 10 c).length := Nat.length_toDigits_pos
  have hle {n : ℕ} (hn : 0 < n) : (Nat.toDigits 10 c).length ≤ n ↔ c < 10 ^ n :=
    Nat.length_toDigits_le_iff (by decide) hn
  have hlow (hk : 0 < k) : k ≤ (Nat.toDigits 10 c).length ↔ 10 ^ (k - 1) ≤ c := by
    rcases Nat.lt_or_ge 1 k with hmore | hone
    · have hfewer := hle (show 0 < k - 1 by omega)
      generalize 10 ^ (k - 1) = power at hfewer
      omega
    · obtain rfl : k = 1 := by omega
      rw [Nat.sub_self, Nat.pow_zero]
      exact iff_of_true hpos (Nat.pos_of_ne_zero hc)
  constructor
  · rintro rfl
    exact ⟨hpos, (hlow hpos).1 le_rfl, (hle hpos).1 le_rfl⟩
  · rintro ⟨hk, hlower, hupper⟩
    exact le_antisymm ((hle hk).2 hupper) ((hlow hk).2 hlower)

section Coarsest

variable {r : ℕ} {d : Decimal}

/-- A power of ten between two decimals that read back lies on no coarser grid. -/
theorem IsCoarsest.le_exponent (h : IsCoarsest r d) {d' : Decimal} {m : ℤ}
    (hd' : d'.nearestRank = r) (hlow : d'.value ≤ 10 ^ m) (hhigh : (10 : ℚ) ^ m ≤ d.value) :
    m ≤ d.exponent := by
  refine h.coarsest 1 m ?_
  rw [nearestRank_eq, value_one]
  exact rankNear_of_between d'.value_nonneg hlow hhigh (nearestRank_eq d' ▸ hd')
    (nearestRank_eq d ▸ h.reads)

/-- The value of a decimal with `k` digits lies below the power of ten behind them. -/
theorem value_lt_pow {d : Decimal} {k : ℕ} (h : d.coefficient < 10 ^ k) :
    d.value < 10 ^ (k + d.exponent) := by
  have hcast : (d.coefficient : ℚ) < 10 ^ k := by exact_mod_cast h
  rw [value, zpow_add₀ (by norm_num), zpow_natCast]
  exact mul_lt_mul_of_pos_right hcast (ten_zpow_pos _)

theorem pow_le_value {d : Decimal} {k : ℕ} (hk : 0 < k) (h : 10 ^ (k - 1) ≤ d.coefficient) :
    (10 : ℚ) ^ (k + d.exponent - 1) ≤ d.value := by
  have hcast : (10 : ℚ) ^ (k - 1) ≤ d.coefficient := by exact_mod_cast h
  have hexponent : (k : ℤ) + d.exponent - 1 = (k - 1 : ℕ) + d.exponent := by omega
  rw [hexponent, value, zpow_add₀ (by norm_num), zpow_natCast]
  exact mul_le_mul_of_nonneg_right hcast (ten_zpow_pos _).le

/-- A decimal that reads back and has no more digits, though on a finer grid, has one digit, as the
decimal on the coarsest grid has. -/
theorem IsCoarsest.eq_one (h : IsCoarsest r d) {k : ℕ} (hk : 0 < k)
    (hd : 10 ^ (k - 1) ≤ d.coefficient) {d' : Decimal} {k' : ℕ} (hd' : d'.nearestRank = r)
    (hupper : d'.coefficient < 10 ^ k') (hless : k' + d'.exponent < k + d.exponent) :
    k = 1 ∧ d'.value < 10 ^ d.exponent := by
  have hvalue := value_lt_pow hupper
  have hpow : (10 : ℚ) ^ (k' + d'.exponent) ≤ 10 ^ (k + d.exponent - 1) :=
    zpow_le_zpow_right₀ (by norm_num) (by omega)
  have hexponent := h.le_exponent hd' (hvalue.le.trans hpow) (pow_le_value hk hd)
  obtain rfl : k = 1 := by omega
  refine ⟨rfl, hvalue.trans_le (hpow.trans_eq ?_)⟩
  congr 1
  push_cast
  omega

/-- A decimal on the coarsest grid has the fewest digits. -/
theorem IsCoarsest.le_length (h : IsCoarsest r d) (hr : r ≠ 0) {k : ℕ} (hk : 0 < k)
    (hd : 10 ^ (k - 1) ≤ d.coefficient) (d' : Decimal) {k' : ℕ} (hd' : d'.nearestRank = r)
    (hupper : d'.coefficient < 10 ^ k') : k ≤ k' := by
  by_contra hfewer
  have hfiner := h.coarsest d'.coefficient d'.exponent hd'
  obtain ⟨rfl, -⟩ := h.eq_one hk hd hd' hupper (by omega)
  -- without digits it is zero
  obtain rfl : k' = 0 := by omega
  have hzero : d'.coefficient = 0 := by rwa [Nat.pow_zero, Nat.lt_one_iff] at hupper
  exact hr (hd' ▸ nearestRank_of_coefficient hzero)

theorem IsCoarsest.coefficient_pos (h : IsCoarsest r d) (hr : r ≠ 0) : 1 ≤ d.coefficient :=
  Nat.pos_of_ne_zero fun hzero => hr (h.reads ▸ nearestRank_of_coefficient hzero)

theorem IsCoarsest.pow_exponent_le_value (h : IsCoarsest r d) (hr : r ≠ 0) :
    (10 : ℚ) ^ d.exponent ≤ d.value :=
  value_one d.exponent ▸ value_le_value d.exponent (h.coefficient_pos hr)

/-- Where the decimal stands among the powers of ten is told by the rank. -/
theorem IsCoarsest.pow_le_value_iff (h : IsCoarsest r d) (hr : r ≠ 0) (m : ℤ) :
    10 ^ m ≤ d.value ↔ rankNear (10 ^ m) ≤ r := by
  have hreads : rankNear d.value = r := nearestRank_eq d ▸ h.reads
  constructor
  · intro hle
    rw [← hreads]
    exact rankNear_mono (ten_zpow_pos m).le hle
  · intro hle
    by_contra hless
    -- the power would read back too, so its grid is no coarser
    have hmono := rankNear_mono d.value_nonneg (not_le.1 hless).le
    have hpower : nearestRank ⟨1, m⟩ = r := by
      rw [nearestRank_eq, value_one]
      exact le_antisymm hle (hreads ▸ hmono)
    have hgrid : (10 : ℚ) ^ m ≤ 10 ^ d.exponent :=
      zpow_le_zpow_right₀ (by norm_num) (h.coarsest 1 m hpower)
    exact hless (hgrid.trans (h.pow_exponent_le_value hr))

/-! ### The nearest one -/

/-- The first power of ten past the least magnitude is a little more than twice as great. -/
theorem exists_power : ∃ n : ℕ, 2 * Nat.pow 10 n < one ∧ 10 * one < 21 * Nat.pow 10 n :=
  ⟨323, by decide +kernel⟩

/-- A power of ten in units of the least magnitude is below a half, a little more than two, or more
than twenty. -/
theorem ten_zpow_mul_one (e : ℤ) : 2 * (10 ^ e * one : ℚ) < 1 ∨
    2 < (10 ^ e * one : ℚ) ∧ 10 * (10 ^ e * one : ℚ) < 21 ∨ 20 < (10 ^ e * one : ℚ) := by
  obtain ⟨n, hmore, hless⟩ := exists_power
  have hpower := cast_ten_pow n
  generalize Nat.pow 10 n = power at hmore hless hpower
  have hmore' : (2 : ℚ) * power < one := by exact_mod_cast hmore
  have hless' : (10 : ℚ) * one < 21 * power := by exact_mod_cast hless
  have hpos : (0 : ℚ) < power := Nat.cast_pos.2 (by omega)
  -- the power moved by these places
  have hshift : (10 : ℚ) ^ e * power = 10 ^ (e + n) := by
    rw [hpower, ← zpow_add₀ (by norm_num)]
  have hmoved := ten_zpow_pos e
  rcases Int.lt_trichotomy (e + n) 0 with hlt | heq | hgt
  · have hsmall : (10 : ℚ) ^ (e + n) ≤ 10 ^ (-1 : ℤ) :=
      zpow_le_zpow_right₀ (by norm_num) (by omega)
    rw [← hshift, zpow_neg_one] at hsmall
    left
    nlinarith
  · rw [heq, zpow_zero] at hshift
    right; left
    constructor <;> nlinarith
  · have hlarge : (10 : ℚ) ^ (1 : ℤ) ≤ 10 ^ (e + n) :=
      zpow_le_zpow_right₀ (by norm_num) (by omega)
    rw [← hshift, zpow_one] at hlarge
    right; right
    nlinarith

/-- A power of ten that reads back as a rank is not far above its magnitude. -/
theorem nineteen_mul_le (hr : r ≠ 0) {e : ℤ} (h : rankNear (10 ^ e) = r) :
    19 * (10 : ℚ) ^ e ≤ 20 * magnitude r := by
  by_contra hless
  have hmiddle := two_mul_le_of_rankNear h
  obtain ⟨i, m, low, high, rfl⟩ := exists_step r
  have hpos : (0 : ℚ) < 2 ^ i / one := div_pos (by positivity) cast_one_pos
  rw [Nat.add_assoc, magnitude_step low high.le, magnitude_step (low.imp_right (by omega)) high,
    Nat.cast_succ, mul_div_assoc, mul_div_assoc] at hmiddle
  rw [magnitude_step low high.le, mul_div_assoc] at hless
  -- only the first ranks are that far apart
  have hsmall : (2 * m : ℚ) < 19 := by nlinarith
  have hm : 2 * m < 19 := by exact_mod_cast hsmall
  obtain rfl : i = 0 := by omega
  have hm' : 1 ≤ m := by omega
  rw [pow_zero] at hmiddle hless
  have hone := cast_one_pos
  have hcancel : (1 : ℚ) / one * one = 1 := one_div_mul_cancel Double.one_ne_zero
  have hunits : (20 * m : ℚ) < 19 * (10 ^ e * one) := by nlinarith
  have hunits' : 2 * (10 ^ e * one : ℚ) ≤ 2 * m + 1 := by nlinarith
  have hfirst : (1 : ℚ) ≤ m := Nat.one_le_cast.2 hm'
  rcases ten_zpow_mul_one e with htenth | ⟨hmore, hupper⟩ | hlarge
  · linarith
  · have hfew : (m : ℚ) < 2 := by linarith
    have hfew' : m < 2 := by exact_mod_cast hfew
    obtain rfl : m = 1 := by omega
    rw [Nat.cast_one] at hunits'
    linarith
  · linarith

/-- No decimal with as many digits that reads back is nearer. -/
theorem IsCoarsest.distance_le (h : IsCoarsest r d) (hr : r ≠ 0) {k : ℕ} (hk : 0 < k)
    (hd : 10 ^ (k - 1) ≤ d.coefficient) (d' : Decimal) (hd' : d'.nearestRank = r)
    (hupper : d'.coefficient < 10 ^ k) :
    |d.value - magnitude r| ≤ |d'.value - magnitude r| := by
  rcases Int.lt_or_eq_of_le (h.coarsest d'.coefficient d'.exponent hd') with hlt | heq
  · -- only single digits are left, with a power of ten between them
    obtain ⟨rfl, hbelow⟩ := h.eq_one hk hd hd' hupper (by omega)
    have hpower : rankNear (10 ^ d.exponent) = r :=
      rankNear_of_between d'.value_nonneg hbelow.le (h.pow_exponent_le_value hr)
        (nearestRank_eq d' ▸ hd') (nearestRank_eq d ▸ h.reads)
    have hclosest : |d.value - magnitude r| ≤ |10 ^ d.exponent - magnitude r| := by
      have hone := h.closest 1
      rw [nearestRank_eq, value_one] at hone
      exact hone hpower
    have hdigit : 10 * d'.value ≤ 9 * 10 ^ d.exponent := by
      have hcoefficient : (d'.coefficient : ℚ) ≤ 9 := by
        exact_mod_cast (by rw [Nat.pow_one] at hupper; omega : d'.coefficient ≤ 9)
      have hexponent : (10 : ℚ) ^ d'.exponent * 10 ≤ 10 ^ d.exponent := by
        rw [← zpow_add_one₀ (by norm_num)]
        exact zpow_le_zpow_right₀ (by norm_num) (by omega)
      have hpos := ten_zpow_pos d'.exponent
      rw [value]
      nlinarith
    have hfar := nineteen_mul_le hr hpower
    refine hclosest.trans ?_
    rw [abs_of_nonpos (show d'.value - magnitude r ≤ 0 by linarith)]
    exact abs_le.2 ⟨by linarith, by linarith⟩
  · obtain ⟨coefficient, exponent⟩ := d'
    obtain rfl : exponent = d.exponent := heq
    exact h.closest coefficient hd'

end Coarsest

end ActionTree.Decimal
