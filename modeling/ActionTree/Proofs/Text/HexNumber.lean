import ActionTree.Proofs.Double.Whole
import ActionTree.Proofs.Text.NumberLiteral

/-!
# Digits to the base 16 are rounded one by one

The number of digits to the base 16 is accumulated in doubles.  As long as the digits so far spell a
number below `2 ^ 53` this loses nothing.  The first number past it is rounded, and no digit behind
it counts any more, since each is less than half a step.  So the result is the double nearest to the
number with zeros in place of these digits.  It is not nearest to the number itself when the
digits up to there spell the middle between two doubles, which goes down to the even one, and the
others are not all zeros.

* `hexNumber` - the number that digits to the base 16 spell;
* `foldl_hexStep` - what accumulating digits gives;
* `rankNear_extend`, `rankNear_extend_of_middle` - what digits behind a large number do to its
  rounding;
* `stringToNumber_hexadecimal` - the number of a string of digits to the base 16.
-/

namespace ActionTree

open Double

/-! ### Numbers to the base 16 -/

/-- Digits behind a number. -/
def appendDigits (n : ℕ) (ds : List ℕ) : ℕ := ds.foldl (fun n d => 16 * n + d) n

theorem appendDigits_append (n : ℕ) (ds es : List ℕ) :
    appendDigits n (ds ++ es) = appendDigits (appendDigits n ds) es :=
  List.foldl_append

/-- The number in front is moved by one place for each digit. -/
theorem appendDigits_eq (n : ℕ) (ds : List ℕ) :
    appendDigits n ds = n * 16 ^ ds.length + appendDigits 0 ds := by
  induction ds generalizing n with
  | nil => simp [appendDigits]
  | cons d ds ih =>
    have hn : appendDigits n (d :: ds) = appendDigits (16 * n + d) ds := rfl
    have h0 : appendDigits 0 (d :: ds) = appendDigits (16 * 0 + d) ds := rfl
    rw [hn, h0, ih, ih (16 * 0 + d), List.length_cons, pow_succ]
    ring

theorem appendDigits_lt {ds : List ℕ} (hds : ∀ d ∈ ds, d < 16) :
    appendDigits 0 ds < 16 ^ ds.length := by
  induction ds with
  | nil => decide
  | cons d ds ih =>
    obtain ⟨hd, hds⟩ := List.forall_mem_cons.1 hds
    have hcons : appendDigits 0 (d :: ds) = appendDigits (16 * 0 + d) ds := rfl
    have hrest := ih hds
    have hplace : d * 16 ^ ds.length ≤ 15 * 16 ^ ds.length := Nat.mul_le_mul_right _ (by omega)
    rw [hcons, appendDigits_eq, List.length_cons, pow_succ, Nat.mul_zero, Nat.zero_add]
    omega

/-! ### One digit -/

/-- A large number has a rank past the evenly spaced ones. -/
theorem le_of_brackets {n a : ℕ} (hn : 0 < n) (h : Brackets n a) : 2 ^ 52 ≤ a := by
  have hone : magnitude (2 ^ 52) ≤ 1 := by
    have hstep := magnitude_step (e := 0) (m := 2 ^ 52) (.inl rfl) (by decide)
    rw [Nat.zero_mul, Nat.zero_add, pow_zero, mul_one] at hstep
    rw [hstep, div_le_one cast_one_pos, Nat.cast_le, one_eq,
      Nat.pow_le_pow_iff_right Nat.one_lt_two]
    decide
  have hge : (1 : ℚ) ≤ n := Nat.one_le_cast.2 hn
  exact Nat.lt_succ_iff.1 (magnitude_lt_magnitude.1 ((hone.trans hge).trans_lt h.above))

/-- Sixteen and the digits have ranks. -/
theorem exists_digit {d : ℕ} (hd : d ≤ 16) :
    ∃ r : Fin rankLimit, ofNat d = .finite false r ∧ magnitude r = d := by
  obtain ⟨r, hr, hunits⟩ := exists_ofNat (show d < 2 ^ 53 by omega)
  exact ⟨r, hr, magnitude_of_rankUnits hunits⟩

/-- A digit behind a finite magnitude: the magnitude is moved by a place and rounded, the digit is
added, and the sum is rounded. -/
theorem hexStep_finite (r : Fin rankLimit) {d : ℕ} (hd : d < 16) :
    hexStep (.finite false r) d =
      if rankNear (magnitude r * 16) < rankLimit then
        ofRank false (rankNear (magnitude (rankNear (magnitude r * 16)) + d))
      else .infinite false := by
  obtain ⟨sixteen, hsixteen, hvalue⟩ := exists_digit (le_refl 16)
  obtain ⟨digit, hdigit, hdigitValue⟩ := exists_digit hd.le
  rw [hexStep, hsixteen, hdigit, mul_finite, hvalue, Nat.cast_ofNat]
  split_ifs with h
  · rw [ofRank_of_lt false h, add_finite, hdigitValue]
  · rw [ofRank_of_le false (not_lt.1 h)]
    rfl

theorem hexStep_infinite {d : ℕ} (hd : d < 16) :
    hexStep (.infinite false) d = .infinite false := by
  obtain ⟨sixteen, hsixteen, hvalue⟩ := exists_digit (le_refl 16)
  obtain ⟨digit, hdigit, -⟩ := exists_digit hd.le
  have hne : sixteen.val ≠ 0 := by
    intro hzero
    rw [hzero, magnitude_zero] at hvalue
    norm_num at hvalue
  have hproduct : (infinite false).mul (finite false sixteen) = infinite false := by
    rw [mul, if_neg hne]
    rfl
  rw [hexStep, hsixteen, hdigit, hproduct]
  rfl

/-- Below `2 ^ 53` nothing is lost in front of a new digit. -/
theorem hexStep_of_lt {n : ℕ} (hn : n < 2 ^ 53) {d : ℕ} (hd : d < 16) :
    hexStep (ofNat n) d = ofNat (16 * n + d) := by
  obtain ⟨r, hr, hunits⟩ := exists_ofNat hn
  have hvalue := magnitude_of_rankUnits hunits
  -- the number moved by a place has a rank too
  obtain ⟨r', hr', hvalue'⟩ : ∃ r' < rankLimit, magnitude r' = n * 16 := by
    rcases Nat.eq_zero_or_pos n with rfl | hpos
    · exact ⟨0, by decide, by rw [magnitude_zero]; norm_num⟩
    · have hbrackets : Brackets n r := hvalue ▸ brackets_magnitude r
      have hmoved : magnitude (r + 4 * 2 ^ 52) = n * 16 := by
        rw [magnitude_add_binade (le_of_brackets hpos hbrackets), hvalue]
        norm_num
      refine ⟨r + 4 * 2 ^ 52, ?_, hmoved⟩
      rw [← magnitude_lt_magnitude, hmoved, magnitude_rankLimit]
      have hsmall : (n * 16 : ℚ) < 2 ^ 57 := by exact_mod_cast (by omega : n * 16 < 2 ^ 57)
      exact hsmall.trans_le (pow_le_pow_right₀ one_le_two (by decide))
  have hexact : rankNear (magnitude r * 16) = r' := by
    rw [hvalue, ← hvalue', rankNear_magnitude]
  have hsum : (n * 16 : ℚ) + d = ((16 * n + d : ℕ) : ℚ) := by
    push_cast
    ring
  rw [hr, hexStep_finite r hd, hexact, if_pos hr', hvalue', hsum, ← ofNat_eq_ofRank]

/-- From `2 ^ 53` on neighbours are at least two apart. -/
theorem two_le_spacing {r : ℕ} (hr : 1076 * 2 ^ 52 ≤ r) : magnitude r + 2 ≤ magnitude (r + 1) := by
  obtain ⟨e, m, low, high, rfl⟩ := exists_significand (show 2 ^ 52 ≤ r by omega)
  obtain ⟨j, rfl⟩ : ∃ j, e = 1074 + (j + 1) := ⟨e - 1075, by omega⟩
  rw [Nat.add_assoc, magnitude_whole low high.le, magnitude_whole (by omega) high]
  have hpos := Nat.two_pow_pos j
  exact_mod_cast (by rw [pow_succ, Nat.succ_mul]; omega :
    m * 2 ^ (j + 1) + 2 ≤ (m + 1) * 2 ^ (j + 1))

/-- From `2 ^ 53` on a new digit does not count. -/
theorem hexStep_of_le {n : ℕ} (hn : 2 ^ 53 ≤ n) {d : ℕ} (hd : d < 16) :
    hexStep (ofNat n) d = ofNat (16 * n) := by
  obtain ⟨j, m, low, high, hbelow, habove⟩ := exists_wholeStep hn
  have hbrackets := brackets_whole low high hbelow habove
  have hmoved := rankNear_mul_two_pow hbrackets (by omega) 4
  have hcases := hbrackets.rankNear_cases
  have hcast : ((16 * n : ℕ) : ℚ) = n * 2 ^ 4 := by
    push_cast
    ring
  rw [ofNat_eq_ofRank, ofNat_eq_ofRank, hcast, hmoved]
  generalize rankNear n = r at hcases
  have hr : 1076 * 2 ^ 52 ≤ r := by omega
  have hmagnitude : magnitude (r + 4 * 2 ^ 52) = magnitude r * 16 := by
    rw [magnitude_add_binade (by omega)]
    norm_num
  rcases Nat.lt_or_ge r rankLimit with hlt | hge
  · rw [ofRank_of_lt false hlt, hexStep_finite ⟨r, hlt⟩ hd, ← hmagnitude, rankNear_magnitude]
    split_ifs with hlt'
    · -- the digit is less than half a step
      have hspacing : magnitude (r + 4 * 2 ^ 52) + 32 ≤ magnitude (r + 4 * 2 ^ 52 + 1) := by
        have hnext : magnitude (r + 1 + 4 * 2 ^ 52) = magnitude (r + 1) * 2 ^ 4 :=
          magnitude_add_binade (by omega) 4
        rw [hmagnitude, Nat.add_right_comm, hnext]
        linarith [two_le_spacing hr]
      have hdigit : (d : ℚ) ≤ 15 := by exact_mod_cast (by omega : d ≤ 15)
      have hsum : Brackets (magnitude (r + 4 * 2 ^ 52) + d) (r + 4 * 2 ^ 52) :=
        ⟨le_add_of_nonneg_right (Nat.cast_nonneg d), by linarith⟩
      rw [rankNear_of_brackets hsum, if_pos (by linarith)]
    · rw [ofRank_of_le false (not_lt.1 hlt')]
  · rw [ofRank_of_le false hge, hexStep_infinite hd, ofRank_of_le false (by omega)]

/-! ### All digits -/

/-- Digits behind a number from `2 ^ 53` on only move it. -/
theorem foldl_hexStep_of_le {n : ℕ} (hn : 2 ^ 53 ≤ n) {ds : List ℕ} (hds : ∀ d ∈ ds, d < 16) :
    ds.foldl hexStep (ofNat n) = ofNat (n * 16 ^ ds.length) := by
  induction ds generalizing n with
  | nil => rw [List.foldl_nil, List.length_nil, pow_zero, Nat.mul_one]
  | cons d ds ih =>
    obtain ⟨hd, hds⟩ := List.forall_mem_cons.1 hds
    rw [List.foldl_cons, hexStep_of_le hn hd, ih (by omega) hds, List.length_cons, pow_succ',
      ← Nat.mul_assoc, Nat.mul_comm n]

/-- What accumulating digits gives: the digits count until they spell a number from `2 ^ 53` on, and
zeros stand for the others. -/
theorem foldl_hexStep {n : ℕ} (hn : n < 2 ^ 53) {ds : List ℕ} (hds : ∀ d ∈ ds, d < 16) :
    ∃ before after, ds = before ++ after ∧
      ds.foldl hexStep (ofNat n) = ofNat (appendDigits n before * 16 ^ after.length) ∧
      appendDigits n before < 2 ^ 57 ∧ (after = [] ∨ 2 ^ 53 ≤ appendDigits n before) := by
  induction ds generalizing n with
  | nil =>
    have hnil : appendDigits n [] = n := rfl
    refine ⟨[], [], rfl, ?_, by rw [hnil]; omega, .inl rfl⟩
    rw [hnil, List.foldl_nil, List.length_nil, pow_zero, Nat.mul_one]
  | cons d ds ih =>
    obtain ⟨hd, hds⟩ := List.forall_mem_cons.1 hds
    have hcons (es : List ℕ) : appendDigits n (d :: es) = appendDigits (16 * n + d) es := rfl
    rw [List.foldl_cons, hexStep_of_lt hn hd]
    rcases Nat.lt_or_ge (16 * n + d) (2 ^ 53) with hlt | hge
    · obtain ⟨before, after, hsplit, hvalue, hbound, hfull⟩ := ih hlt hds
      exact ⟨d :: before, after, by rw [hsplit, List.cons_append], by rw [hcons, hvalue],
        by rwa [hcons], by rwa [hcons]⟩
    · have hone : appendDigits n [d] = 16 * n + d := rfl
      exact ⟨[d], ds, rfl, by rw [hone, foldl_hexStep_of_le hge hds], by rw [hone]; omega,
        .inr (by rwa [hone])⟩

/-! ### Rounding a number with digits behind it -/

/-- The number lies in the middle between two neighbouring doubles, of which the smaller one is
even. -/
def IsMiddleAboveEven (n : ℕ) : Prop :=
  ∃ m j, 2 ^ 52 ≤ m ∧ m < 2 ^ 53 ∧ m % 2 = 0 ∧ n = (2 * m + 1) * 2 ^ j

/-- A whole number between two large doubles goes to the nearer one, and to the even one from the
middle. -/
theorem rankNear_whole {n j m : ℕ} (low : 2 ^ 52 ≤ m) (high : m < 2 ^ 53)
    (hbelow : m * 2 ^ (j + 1) ≤ n) (habove : n < (m + 1) * 2 ^ (j + 1)) :
    rankNear n =
      if n < (2 * m + 1) * 2 ^ j then (1074 + (j + 1)) * 2 ^ 52 + m
      else if (2 * m + 1) * 2 ^ j < n then (1074 + (j + 1)) * 2 ^ 52 + m + 1
      else (1074 + (j + 1)) * 2 ^ 52 + m + m % 2 := by
  have hmiddle : (m * 2 ^ (j + 1) + (m + 1) * 2 ^ (j + 1) : ℕ) = 2 * ((2 * m + 1) * 2 ^ j) := by
    ring
  have hsum : magnitude ((1074 + (j + 1)) * 2 ^ 52 + m) +
      magnitude ((1074 + (j + 1)) * 2 ^ 52 + m + 1) = (2 * ((2 * m + 1) * 2 ^ j) : ℕ) := by
    rw [magnitude_whole low high.le, Nat.add_assoc, magnitude_whole (by omega) high, ← hmiddle,
      Nat.cast_add]
  have hparity : ((1074 + (j + 1)) * 2 ^ 52 + m) % 2 = m % 2 := by omega
  have htwice : (2 * n : ℚ) = (2 * n : ℕ) := by rw [Nat.cast_mul, Nat.cast_ofNat]
  rw [rankNear_of_brackets (brackets_whole low high hbelow habove), hsum, hparity, htwice]
  simp only [Nat.cast_lt, Nat.mul_lt_mul_left Nat.two_pos]

section Extend

variable {n k t : ℕ}

/-- Digits behind a number keep it between the same two doubles. -/
theorem extend_between {a b : ℕ} (ht : t < 16 ^ k) (hbelow : a ≤ n) (habove : n < b) :
    a * 16 ^ k ≤ n * 16 ^ k + t ∧ n * 16 ^ k + t < b * 16 ^ k := by
  have hnext : (n + 1) * 16 ^ k ≤ b * 16 ^ k := Nat.mul_le_mul_right _ habove
  rw [Nat.succ_mul] at hnext
  exact ⟨(Nat.mul_le_mul_right _ hbelow).trans (Nat.le_add_right _ _), by omega⟩

theorem two_pow_extend (j k : ℕ) : 2 ^ (j + 4 * k) = 2 ^ j * 16 ^ k := by
  rw [Nat.pow_add, Nat.pow_mul]

/-- The nearest rank of a large number with digits behind it. -/
theorem rankNear_extend {j m : ℕ} (low : 2 ^ 52 ≤ m) (high : m < 2 ^ 53)
    (hbelow : m * 2 ^ (j + 1) ≤ n) (habove : n < (m + 1) * 2 ^ (j + 1)) (ht : t < 16 ^ k) :
    rankNear (n * 16 ^ k + t : ℕ) =
      if n < (2 * m + 1) * 2 ^ j then (1074 + (j + 4 * k + 1)) * 2 ^ 52 + m
      else if (2 * m + 1) * 2 ^ j < n ∨ t ≠ 0 then (1074 + (j + 4 * k + 1)) * 2 ^ 52 + m + 1
      else (1074 + (j + 4 * k + 1)) * 2 ^ 52 + m + m % 2 := by
  have hstep : 2 ^ (j + 4 * k + 1) = 2 ^ (j + 1) * 16 ^ k := by
    rw [Nat.add_right_comm, two_pow_extend]
  have hpos : 0 < 16 ^ k := Nat.pow_pos (by decide)
  obtain ⟨hlower, hupper⟩ := extend_between ht hbelow habove
  rw [Nat.mul_assoc, ← hstep] at hlower hupper
  have hless : n * 16 ^ k + t < (2 * m + 1) * 2 ^ (j + 4 * k) ↔ n < (2 * m + 1) * 2 ^ j := by
    rw [two_pow_extend, ← Nat.mul_assoc]
    refine ⟨fun h => ?_, fun h => (extend_between ht le_rfl h).2⟩
    exact Nat.lt_of_mul_lt_mul_right ((Nat.le_add_right _ _).trans_lt h)
  have hmore : (2 * m + 1) * 2 ^ (j + 4 * k) < n * 16 ^ k + t ↔
      (2 * m + 1) * 2 ^ j < n ∨ (2 * m + 1) * 2 ^ j = n ∧ t ≠ 0 := by
    rw [two_pow_extend, ← Nat.mul_assoc]
    generalize (2 * m + 1) * 2 ^ j = middle
    rcases Nat.lt_trichotomy middle n with hlt | rfl | hgt
    · have := Nat.mul_lt_mul_of_pos_right hlt hpos
      omega
    · omega
    · have := (extend_between ht le_rfl hgt).2
      omega
  rw [rankNear_whole low high hlower hupper]
  simp only [hless, hmore]
  split_ifs <;> first | rfl | omega

/-- Digits behind a large number do not matter, but for the number in the middle above an even
double. -/
theorem rankNear_extend_of_not (hn : 2 ^ 53 ≤ n) (ht : t < 16 ^ k)
    (h : ¬(IsMiddleAboveEven n ∧ t ≠ 0)) :
    rankNear (n * 16 ^ k + t : ℕ) = rankNear (n * 16 ^ k : ℕ) := by
  obtain ⟨j, m, low, high, hbelow, habove⟩ := exists_wholeStep hn
  have hzeros := rankNear_extend (t := 0) low high hbelow habove (Nat.zero_le t |>.trans_lt ht)
  rw [Nat.add_zero] at hzeros
  rw [rankNear_extend low high hbelow habove ht, hzeros]
  have hmiddle : m % 2 = 0 → n = (2 * m + 1) * 2 ^ j → t = 0 := fun heven heq =>
    of_not_not fun hne => h ⟨⟨m, j, low, high, heven, heq⟩, hne⟩
  generalize (2 * m + 1) * 2 ^ j = middle at hmiddle
  split_ifs <;> omega

/-- Behind the middle above an even double the digits decide, and without them the even double is
taken. -/
theorem rankNear_extend_of_middle (h : IsMiddleAboveEven n) (ht : t < 16 ^ k) (hne : t ≠ 0) :
    rankNear (n * 16 ^ k + t : ℕ) = rankNear (n * 16 ^ k : ℕ) + 1 ∧
      rankNear (n * 16 ^ k : ℕ) % 2 = 0 := by
  obtain ⟨m, j, low, high, heven, hn⟩ := h
  have hpos := Nat.two_pow_pos j
  have hstep : 2 ^ (j + 1) = 2 * 2 ^ j := pow_succ' 2 j
  have hbelow : m * 2 ^ (j + 1) ≤ n := by
    rw [hn, hstep, ← Nat.mul_assoc, Nat.mul_comm m]
    exact Nat.mul_le_mul_right _ (by omega)
  have habove : n < (m + 1) * 2 ^ (j + 1) := by
    rw [hn, hstep, ← Nat.mul_assoc, Nat.mul_comm (m + 1)]
    exact Nat.mul_lt_mul_of_pos_right (by omega) hpos
  have hzeros := rankNear_extend (t := 0) low high hbelow habove (Nat.zero_le t |>.trans_lt ht)
  rw [Nat.add_zero] at hzeros
  rw [rankNear_extend low high hbelow habove ht, hzeros]
  generalize (2 * m + 1) * 2 ^ j = middle at hn
  rw [if_neg (by omega), if_pos (.inr hne), if_neg (by omega), if_neg (by omega)]
  omega

/-- Which doubles are nearest to a large number with digits behind it and with zeros there. -/
theorem ofNat_extend_eq_iff (hn : 2 ^ 53 ≤ n) (ht : t < 16 ^ k) :
    ofNat (n * 16 ^ k) = ofNat (n * 16 ^ k + t) ↔
      ¬(IsMiddleAboveEven n ∧ t ≠ 0 ∧ n * 16 ^ k + t < 2 ^ 1024) := by
  rw [ofNat_eq_ofRank, ofNat_eq_ofRank]
  by_cases h : IsMiddleAboveEven n ∧ t ≠ 0
  · obtain ⟨hup, heven⟩ := rankNear_extend_of_middle h.1 ht h.2
    have hlimit : rankLimit % 2 = 0 := by decide
    have hbound : n * 16 ^ k + t < 2 ^ 1024 ↔ rankNear (n * 16 ^ k : ℕ) < rankLimit := by
      rw [← Nat.cast_lt (α := ℚ), Nat.cast_pow, Nat.cast_ofNat, ← magnitude_rankLimit]
      constructor
      · intro hless
        have hmono := rankNear_mono (Nat.cast_nonneg _) hless.le
        rw [rankNear_magnitude, hup] at hmono
        omega
      · intro hrank
        have hfinite := (rankNear_lt_rankLimit_iff (Nat.cast_nonneg (n * 16 ^ k + t))).1 (by omega)
        rw [magnitude_rankLimit]
        exact hfinite.trans (sub_lt_self _ (by positivity))
    rw [ofRank_inj, hup, hbound]
    simp only [h.1, h.2, ne_eq, not_false_eq_true, true_and]
    omega
  · rw [rankNear_extend_of_not hn ht h]
    exact iff_of_true rfl fun hall => h ⟨hall.1, hall.2.1⟩

end Extend

/-! ### Texts of digits -/

instance (c : Char) : Decidable (IsHexDigit c) := inferInstanceAs (Decidable (_ ∨ _ ∨ _))

/-- The value of a digit to the base 16. -/
def hexDigit (c : Char) : ℕ := (Text.hexValue? c).getD 0

/-- The number that digits to the base 16 spell. -/
def hexNumber (cs : List Char) : ℕ := appendDigits 0 (cs.map hexDigit)

theorem hexValue?_eq {c : Char} (h : IsHexDigit c) : Text.hexValue? c = some (hexDigit c) := by
  obtain ⟨d, hd⟩ := Option.isSome_iff_exists.1 ((isSome_hexValue? c).2 h)
  rw [hexDigit, hd, Option.getD_some]

theorem hexDigit_lt (c : Char) : hexDigit c < 16 := by
  have hoffset {lo hi c : Char} (h : lo ≤ c ∧ c ≤ hi) : c.toNat ≤ hi.toNat := h.2
  unfold hexDigit Text.hexValue?
  split_ifs with hdigit hlower hupper
  · have := hoffset hdigit
    simp only [Option.getD_some, Char.reduceToNat] at this ⊢
    omega
  · have := hoffset hlower
    simp only [Option.getD_some, Char.reduceToNat] at this ⊢
    omega
  · have := hoffset hupper
    simp only [Option.getD_some, Char.reduceToNat] at this ⊢
    omega
  · decide

theorem hexNumber_lt (cs : List Char) : hexNumber cs < 16 ^ cs.length := by
  rw [hexNumber, ← List.length_map (f := hexDigit)]
  refine appendDigits_lt fun d hd => ?_
  obtain ⟨c, -, rfl⟩ := List.mem_map.1 hd
  exact hexDigit_lt c

theorem hexNumber_append (before after : List Char) :
    hexNumber (before ++ after) = hexNumber before * 16 ^ after.length + hexNumber after := by
  rw [hexNumber, List.map_append, appendDigits_append, appendDigits_eq, List.length_map]
  rfl

theorem mapM_hexValue?_eq {cs : List Char} (h : ∀ c ∈ cs, IsHexDigit c) :
    cs.mapM Text.hexValue? = some (cs.map hexDigit) := by
  induction cs with
  | nil => rfl
  | cons c cs ih =>
    obtain ⟨hc, hcs⟩ := List.forall_mem_cons.1 h
    rw [List.mapM_cons, hexValue?_eq hc, ih hcs]
    rfl

/-- The number of digits to the base 16 is that of those up to `2 ^ 53`, with zeros behind them. -/
theorem hexToNumber_eq {cs : List Char} (hne : cs ≠ []) (hcs : ∀ c ∈ cs, IsHexDigit c) :
    ∃ before after, cs = before ++ after ∧ hexNumber before < 2 ^ 57 ∧
      (after = [] ∨ 2 ^ 53 ≤ hexNumber before) ∧
      hexToNumber cs = ofNat (hexNumber before * 16 ^ after.length) := by
  have hlt : ∀ d ∈ cs.map hexDigit, d < 16 := by
    intro d hd
    obtain ⟨c, -, rfl⟩ := List.mem_map.1 hd
    exact hexDigit_lt c
  obtain ⟨before, after, hsplit, hvalue, hbound, hfull⟩ := foldl_hexStep (n := 0) (by decide) hlt
  obtain ⟨front, back, rfl, rfl, rfl⟩ := List.map_eq_append_iff.1 hsplit
  rw [List.length_map] at hvalue
  refine ⟨front, back, rfl, hbound, hfull.imp_left List.map_eq_nil_iff.1, ?_⟩
  have hzero : ofNat 0 = .zero false := by decide
  rw [hexToNumber, if_neg (by simpa using hne), mapM_hexValue?_eq hcs, hexNumber, ← hvalue, hzero]

/-- **Hexadecimal numbers.**  The number of digits to the base 16 behind their mark is the double
nearest to the number that is spelled by the digits up to `2 ^ 53` and zeros in place of the others.
It is nearest to the number spelled by all digits too, unless the first ones spell the middle
between two doubles above an even one, the others are not all zeros and the number is below
`2 ^ 1024`. -/
theorem stringToNumber_hexadecimal {h : String} (hne : h ≠ "")
    (hh : ∀ c ∈ h.toList, IsHexDigit c) :
    ∃ before after, h.toList = before ++ after ∧ hexNumber before < 2 ^ 57 ∧
      (after = [] ∨ 2 ^ 53 ≤ hexNumber before) ∧
      IsNearest (hexNumber before * 16 ^ after.length : ℕ) (stringToNumber ("0x" ++ h)) ∧
      (IsNearest (hexNumber h.toList) (stringToNumber ("0x" ++ h)) ↔
        ¬(IsMiddleAboveEven (hexNumber before) ∧ hexNumber after ≠ 0 ∧
          hexNumber h.toList < 2 ^ 1024)) := by
  have hcs : h.toList ≠ [] := fun hnil => hne (String.toList_eq_nil_iff.1 hnil)
  obtain ⟨before, after, hsplit, hbound, hfull, hvalue⟩ := hexToNumber_eq hcs hh
  have hread : stringToNumber ("0x" ++ h) = ofNat (hexNumber before * 16 ^ after.length) := by
    have hink : ∀ c ∈ ("0x" ++ h).toList, IsInk c := by
      intro c hc
      rw [String.toList_append, List.mem_append] at hc
      exact hc.elim (isInk_of_mem (by decide)) fun hc => isInk_of_isHexDigit (hh c hc)
    rw [stringToNumber, trim_of_isInk hink, String.toList_append]
    exact hvalue
  have hwhole : hexNumber h.toList = hexNumber before * 16 ^ after.length + hexNumber after := by
    rw [hsplit, hexNumber_append]
  refine ⟨before, after, hsplit, hbound, hfull, hread ▸ isNearest_ofNat _, ?_⟩
  rw [isNearest_natCast_iff, hread, hwhole]
  rcases hfull with rfl | hge
  · have hnil : hexNumber [] = 0 := rfl
    rw [List.length_nil, pow_zero, Nat.mul_one, hnil, Nat.add_zero]
    exact iff_of_true rfl fun hall => hall.2.1 rfl
  · exact ofNat_extend_eq_iff hge (hexNumber_lt after)

theorem isHexDigit_lostDigit : ∀ c ∈ "800000000000041".toList, IsHexDigit c := by
  have hall : "800000000000041".toList.all (fun c => IsHexDigit c) = true := by decide
  intro c hc
  exact of_decide_eq_true (List.all_eq_true.1 hall c hc)

/-- The number `0x800000000000041` is taken for `0x800000000000040`, the middle above an even
double. -/
theorem stringToNumber_hexadecimal_lastDigit :
    ∃ before after, "800000000000041".toList = before ++ after ∧ hexNumber before < 2 ^ 57 ∧
      (after = [] ∨ 2 ^ 53 ≤ hexNumber before) ∧
      IsNearest (hexNumber before * 16 ^ after.length : ℕ) (stringToNumber "0x800000000000041") ∧
      (IsNearest (hexNumber "800000000000041".toList) (stringToNumber "0x800000000000041") ↔
        ¬(IsMiddleAboveEven (hexNumber before) ∧ hexNumber after ≠ 0 ∧
          hexNumber "800000000000041".toList < 2 ^ 1024)) :=
  stringToNumber_hexadecimal (by decide) isHexDigit_lostDigit

/-- The last digit of `0x800000000000041` is lost, so another double is nearer. -/
theorem exists_hexadecimal_not_isNearest :
    ¬∀ h : String, h ≠ "" → (∀ c ∈ h.toList, IsHexDigit c) →
      IsNearest (hexNumber h.toList) (stringToNumber ("0x" ++ h)) := by
  intro hall
  simp only [isNearest_natCast_iff] at hall
  have hlost : stringToNumber "0x800000000000041" ≠ ofNat (hexNumber "800000000000041".toList) := by
    decide +kernel
  exact hlost (hall "800000000000041" (by decide) isHexDigit_lostDigit)

end ActionTree
