import ActionTree.Proofs.Decimal.Fewest
import ActionTree.Proofs.Decimal.Numeral
import ActionTree.Value.Coercion

/-!
# The string of a number

ECMAScript writes a number with the fewest digits that are read back as it, and the place of the
point decides between the positional and the exponential form.  The same follows from comparing
the number with `1e21` and `1e-6`, since a power of ten that is nearest to a double is its shortest
decimal.

* `Double.IsShortest` - the fewest digits of a double, and where the point stands in them;
* `IsNumberString` - the strings that ECMAScript allows for a number;
* `textByMagnitude` - the string from a comparison of the number, and changes to its text;
* `numberText_spec` - the string of a number is an allowed one, and the comparison gives it too.
-/

namespace ActionTree

/-! ### Digits -/

namespace Double

/-- The `k` digits of `s` are read as `x` when the point stands behind `n` of them. -/
structure IsSpelled (x : Double) (s k : ℕ) (n : ℤ) : Prop where
  pos : 0 < k
  lower : 10 ^ (k - 1) ≤ s
  upper : s < 10 ^ k
  nearest : IsNearest (s * 10 ^ (n - k)) x

/-- The fewest digits that are read as the double of a rank, and of these the ones nearest to it. -/
structure IsShortest (r : Fin rankLimit) (s k : ℕ) (n : ℤ) : Prop
    extends IsSpelled (.finite false r) s k n where
  least : ∀ s' k' n', IsSpelled (.finite false r) s' k' n' → k ≤ k'
  closest : ∀ s' n', IsSpelled (.finite false r) s' k n' →
    |s * 10 ^ (n - k) - magnitude r| ≤ |s' * 10 ^ (n' - k) - magnitude r|

theorem isNearest_value_iff {d : Decimal} {r : Fin rankLimit} :
    IsNearest d.value (.finite false r) ↔ d.nearestRank = r := by
  rw [isNearest_iff d.value_nonneg, ← Decimal.nearestRank_eq, finite_eq_ofRank_iff]
  exact eq_comm

/-- The nearest decimal on the coarsest grid has the fewest digits, and no other one with as many is
nearer. -/
theorem isShortest_of_isCoarsest {d : Decimal} {r : Fin rankLimit} (h : d.IsCoarsest r)
    (hr : r.val ≠ 0) : IsShortest r d.coefficient (Nat.toDigits 10 d.coefficient).length
      ((Nat.toDigits 10 d.coefficient).length + d.exponent) := by
  have hcoefficient : d.coefficient ≠ 0 := Nat.pos_iff_ne_zero.1 (h.coefficient_pos hr)
  obtain ⟨hpos, hlower, hupper⟩ := (Decimal.length_toDigits_eq_iff hcoefficient).1 rfl
  generalize (Nat.toDigits 10 d.coefficient).length = k at hpos hlower hupper
  have hvalue : (d.coefficient : ℚ) * 10 ^ (k + d.exponent - k) = d.value := by
    rw [add_sub_cancel_left]
    rfl
  refine ⟨⟨hpos, hlower, hupper, ?_⟩, fun s' k' n' hs => ?_, fun s' n' hs => ?_⟩
  · rw [hvalue]
    exact isNearest_value_iff.2 h.reads
  · have hreads : Decimal.nearestRank ⟨s', n' - k'⟩ = r := isNearest_value_iff.1 hs.nearest
    exact h.le_length hr hpos hlower _ hreads hs.upper
  · have hreads : Decimal.nearestRank ⟨s', n' - k⟩ = r := isNearest_value_iff.1 hs.nearest
    have hnear := h.distance_le hr hpos hlower ⟨s', n' - k⟩ hreads hs.upper
    rw [hvalue]
    exact hnear

end Double

/-! ### The string of digits -/

/-- The exponent where one digit stands before the point instead of `n`, always with a sign. -/
def exponentString (n : ℤ) : List Char :=
  'e' :: (if n - 1 < 0 then '-' else '+') :: Nat.toDigits 10 (n - 1).natAbs

/-- Digits with the point behind `n` of them, as ECMAScript writes them: positionally from `-5` up
to `21`, else with an exponent. -/
def digitString (ds : List Char) (n : ℤ) : List Char :=
  if ds.length ≤ n ∧ n ≤ 21 then ds ++ List.replicate (n.toNat - ds.length) '0'
  else if 0 < n ∧ n ≤ 21 then ds.take n.toNat ++ '.' :: ds.drop n.toNat
  else if -6 < n ∧ n ≤ 0 then '0' :: '.' :: (List.replicate (-n).toNat '0' ++ ds)
  else if ds.length = 1 then ds ++ exponentString n
  else ds.take 1 ++ '.' :: ds.drop 1 ++ exponentString n

/-- The strings of a number in ECMAScript. -/
inductive IsNumberString : Double → List Char → Prop
  | nan : IsNumberString .nan "NaN".toList
  | zero (s : Bool) : IsNumberString (.zero s) "0".toList
  | negative {x : Double} {cs : List Char} (hx : x.lt? (.zero false) = some true)
      (h : IsNumberString x.neg cs) : IsNumberString x ('-' :: cs)
  | infinite : IsNumberString (.infinite false) "Infinity".toList
  | finite {r : Fin Double.rankLimit} {s k : ℕ} {n : ℤ} (hr : r.val ≠ 0)
      (h : Double.IsShortest r s k n) :
      IsNumberString (.finite false r) (digitString (Nat.toDigits 10 s) n)

section Layout

variable {ds : List Char} {n : ℤ}

theorem unsignedText_positional (hds : ds ≠ []) (h : -5 ≤ n ∧ n ≤ 21) :
    (Numeral.positional none ds n).unsignedText = digitString ds n := by
  have hlength : 0 < ds.length := List.length_pos_iff.2 hds
  rw [Numeral.positional, digitString]
  by_cases hnone : n ≤ 0
  · -- the point stands before the digits
    rw [if_pos hnone, if_neg (by omega), if_neg (by omega), if_pos (by omega)]
    exact List.append_nil _
  by_cases hall : ds.length ≤ n.toNat
  · rw [if_neg hnone, if_pos hall, if_pos (by omega)]
    exact (List.append_nil _).trans (List.append_nil _)
  · -- the point stands between them
    rw [if_neg hnone, if_neg hall, if_neg (by omega), if_pos (by omega)]
    exact List.append_nil _

theorem exponentText_eq (n : ℤ) :
    Numeral.exponentText (some (decide (n ≤ 0), Nat.toDigits 10 (n - 1).natAbs)) =
      exponentString n := by
  have hsign : decide (n ≤ 0) = decide (n - 1 < 0) := decide_eq_decide.2 (by omega)
  rw [Numeral.exponentText, exponentString, hsign]
  simp only [decide_eq_true_eq]

theorem unsignedText_scientific_eq (ds : List Char) (n : ℤ) :
    (Numeral.scientific ds n).unsignedText =
      ds.take 1 ++ (if ds.length ≤ 1 then [] else '.' :: ds.drop 1) ++ exponentString n := by
  have hfraction : Numeral.fractionText (if ds.length ≤ 1 then none else some (ds.drop 1)) =
      if ds.length ≤ 1 then [] else '.' :: ds.drop 1 := by
    split_ifs <;> rfl
  rw [← exponentText_eq, ← hfraction]
  rfl

theorem unsignedText_scientific (hds : ds ≠ []) (h : ¬(-5 ≤ n ∧ n ≤ 21)) :
    (Numeral.scientific ds n).unsignedText = digitString ds n := by
  have hlength : 0 < ds.length := List.length_pos_iff.2 hds
  have hstring : digitString ds n = if ds.length = 1 then ds ++ exponentString n
      else ds.take 1 ++ '.' :: ds.drop 1 ++ exponentString n := by
    rw [digitString, if_neg (by omega), if_neg (by omega), if_neg (by omega)]
  rw [unsignedText_scientific_eq, hstring]
  by_cases hone : ds.length ≤ 1
  · -- a single digit has no point behind it
    rw [if_pos hone, if_pos (by omega), List.take_of_length_le hone]
    exact congrArg (· ++ exponentString n) (List.append_nil ds)
  · rw [if_neg hone, if_neg (by omega)]

/-- A numeral with the digits placed in the style of numbers is written as in ECMAScript. -/
theorem unsignedText_place (hds : ds ≠ []) (e : ℤ) :
    (numberStyle.place ds e).unsignedText = digitString ds (ds.length + e) := by
  simp only [NumberStyle.place]
  split_ifs with hposition
  · exact unsignedText_positional hds hposition
  · exact unsignedText_scientific hds hposition

example : (numberStyle.place ['1', '5'] 20).unsignedText = "1.5e+21".toList := by decide

end Layout

/-! ### Comparing the number -/

theorem Decimal.toDouble_eq_ofRank (s : Bool) (d : Decimal) :
    d.toDouble s = .ofRank s (Double.rankNear d.value) := by
  rw [toDouble_eq_round, ← nearestRank_eq]
  rfl

/-- Among the doubles without sign the ranks decide. -/
theorem Double.lt?_ofRank (r : Fin rankLimit) (p : ℕ) :
    (finite false r).lt? (ofRank false p) = some (decide (r.val < p)) := by
  have hr := r.isLt
  rcases Nat.lt_or_ge p rankLimit with hp | hp
  · rw [ofRank_of_lt false hp]
    simp [lt?, place?]
  · rw [ofRank_of_le false hp]
    simp [lt?, place?]
    omega

/-- A number in full, with all zeros that are needed. -/
def plainText (negative : Bool) (ds : List Char) (n : ℤ) : List Char :=
  { Numeral.positional none ds n with negative }.text

/-- The sign and the digits of a number, with one digit before the point. -/
def mantissaText (negative : Bool) (ds : List Char) : List Char :=
  (if negative then ['-'] else []) ++ ds.take 1 ++ if ds.length ≤ 1 then [] else '.' :: ds.drop 1

/-- The exponent where one digit stands before the point, with a sign only when it is negative. -/
def signedExponent (n : ℤ) : List Char :=
  (if n - 1 < 0 then ['-'] else []) ++ Nat.toDigits 10 (n - 1).natAbs

/-- A number with one digit before the point. -/
def scaledText (negative : Bool) (ds : List Char) (n : ℤ) : List Char :=
  mantissaText negative ds ++ 'e' :: signedExponent n

/-- A text with a plus before the exponent, if there is an exponent without a sign. -/
def signExponent (cs : List Char) : List Char :=
  match cs.dropWhile (· ≠ 'e') with
  | [] => cs
  | mark :: exponent =>
    if exponent.head? = some '-' then cs else cs.takeWhile (· ≠ 'e') ++ mark :: '+' :: exponent

/-- A magnitude is not below `1e21`, or it is below `1e-6`. -/
def isExtreme (x : Double) : Bool :=
  x.lt? (Decimal.toDouble false ⟨1, 21⟩) == some false ||
    x.lt? (Decimal.toDouble false ⟨1, -6⟩) == some true

/-- The string of a number, told by comparing it with `1e21` and `1e-6`. -/
def textByMagnitude : Double → String
  | .nan => "NaN"
  | .infinite s => if s then "-Infinity" else "Infinity"
  | .finite s r =>
    if r.val = 0 then "0"
    else
      let (ds, e) := numberStyle.digits r
      let n := ds.length + e
      String.ofList
        (if isExtreme (.finite false r) then signExponent (scaledText s ds n) else plainText s ds n)

/-- Where the point stands tells how the number compares with a power of ten. -/
theorem rankNear_pow_le_iff {r : ℕ} {d : Decimal} (h : d.IsCoarsest r) (hr : r ≠ 0) (m : ℤ) :
    Double.rankNear (10 ^ m) ≤ r ↔ m < (Nat.toDigits 10 d.coefficient).length + d.exponent := by
  have hcoefficient : d.coefficient ≠ 0 := Nat.pos_iff_ne_zero.1 (h.coefficient_pos hr)
  obtain ⟨hpos, hlower, hupper⟩ := (Decimal.length_toDigits_eq_iff hcoefficient).1 rfl
  have hlow := Decimal.pow_le_value hpos hlower
  have hhigh := Decimal.value_lt_pow hupper
  generalize ((Nat.toDigits 10 d.coefficient).length : ℤ) + d.exponent = n at hlow hhigh
  have hten : (1 : ℚ) < 10 := by norm_num
  rw [← h.pow_le_value_iff hr]
  constructor
  · intro hle
    exact (zpow_lt_zpow_iff_right₀ hten).1 (hle.trans_lt hhigh)
  · intro hlt
    exact (zpow_le_zpow_right₀ hten.le (by omega)).trans hlow

theorem takeWhile_ne {mark : Char} {cs : List Char} (h : ∀ c ∈ cs, c ≠ mark) (ds : List Char) :
    (cs ++ mark :: ds).takeWhile (· ≠ mark) = cs ∧
      (cs ++ mark :: ds).dropWhile (· ≠ mark) = mark :: ds := by
  have hcs : ∀ c ∈ cs, decide (c ≠ mark) = true := fun c hc => decide_eq_true (h c hc)
  rw [List.takeWhile_append_of_pos hcs, List.dropWhile_append_of_pos hcs,
    List.takeWhile_cons_of_neg (by simp), List.dropWhile_cons_of_neg (by simp), List.append_nil]
  exact ⟨rfl, rfl⟩

theorem text_scientific (s : Bool) (ds : List Char) (n : ℤ) :
    Numeral.text { Numeral.scientific ds n with negative := s } =
      mantissaText s ds ++ exponentString n := by
  have hunsigned : (Numeral.scientific ds n).unsignedText =
      mantissaText false ds ++ exponentString n := by
    rw [unsignedText_scientific_eq]
    rfl
  show (if s then '-' :: (Numeral.scientific ds n).unsignedText
    else (Numeral.scientific ds n).unsignedText) = _
  rw [hunsigned]
  cases s <;> rfl

theorem ne_of_mem_mantissaText {s : Bool} {ds : List Char} (hds : ∀ c ∈ ds, c.isDigit = true) :
    ∀ c ∈ mantissaText s ds, c ≠ 'e' := by
  intro c hc
  have hdigit (h : c ∈ ds) : c ≠ 'e' := ne_of_isDigit (hds c h) rfl
  rw [mantissaText, List.mem_append, List.mem_append] at hc
  rcases hc with (hc | hc) | hc
  · split at hc
    · rw [List.mem_singleton.1 hc]
      decide
    · cases hc
  · exact hdigit (List.mem_of_mem_take hc)
  · split at hc
    · cases hc
    · rcases List.mem_cons.1 hc with rfl | hc
      · decide
      · exact hdigit (List.mem_of_mem_drop hc)

/-- An exponent without a minus gets a plus. -/
theorem signExponent_scaledText (s : Bool) {ds : List Char} (hds : IsDigits ds) (n : ℤ) :
    signExponent (scaledText s ds n) =
      Numeral.text { Numeral.scientific ds n with negative := s } := by
  have hmark : ∀ c ∈ mantissaText s ds, c ≠ 'e' := ne_of_mem_mantissaText hds.2
  obtain ⟨htake, hdrop⟩ := takeWhile_ne hmark (signedExponent n)
  rw [text_scientific, signExponent, scaledText, hdrop, htake, exponentString, signedExponent]
  by_cases hnegative : n - 1 < 0
  · simp only [if_pos hnegative]
    rfl
  · -- digits have no sign in front
    have hhead : (Nat.toDigits 10 (n - 1).natAbs).head? ≠ some '-' := by
      intro hminus
      have hmem := List.mem_of_mem_head? hminus
      exact ne_of_isDigit ((isDigits_toDigits _).2 _ hmem) rfl rfl
    simp only [if_neg hnegative, List.nil_append, if_neg hhead]

theorem isExtreme_iff {r : Fin Double.rankLimit} {d : Decimal} (h : d.IsCoarsest r)
    (hr : r.val ≠ 0) : isExtreme (.finite false r) = true ↔
      ¬(-5 ≤ (Nat.toDigits 10 d.coefficient).length + d.exponent ∧
        (Nat.toDigits 10 d.coefficient).length + d.exponent ≤ 21) := by
  have hlarge := rankNear_pow_le_iff h hr 21
  have hsmall := rankNear_pow_le_iff h hr (-6)
  rw [isExtreme, Decimal.toDouble_eq_ofRank, Decimal.toDouble_eq_ofRank, Decimal.value_one,
    Decimal.value_one, Double.lt?_ofRank, Double.lt?_ofRank, Bool.or_eq_true, beq_iff_eq,
    beq_iff_eq, Option.some.injEq, Option.some.injEq, decide_eq_false_iff_not, decide_eq_true_iff,
    not_lt, ← not_le, hlarge, hsmall]
  omega

/-- The digits of a rank are those of the nearest decimal on the coarsest grid. -/
theorem exists_isCoarsest {r : ℕ} (hr : r ≠ 0) : ∃ d : Decimal, d.IsCoarsest r ∧
    numberStyle.digits r = (Nat.toDigits 10 d.coefficient, d.exponent) :=
  ⟨_, Decimal.isCoarsest_shortest numberStyle.tie hr, if_neg hr⟩

theorem numberText_finite (s : Bool) {r : Fin Double.rankLimit} (hr : r.val ≠ 0) :
    numberText (.finite s r) = String.ofList (numberStyle.numeral s r).text := by
  have hzero : (Double.finite s r).isZero = false := beq_eq_false_iff_ne.2 hr
  rw [numberText, hzero]
  rfl

/-- The comparisons and changes give the string of the number. -/
theorem textByMagnitude_eq (x : Double) : textByMagnitude x = numberText x := by
  cases x with
  | nan => rfl
  | infinite s => rfl
  | finite s r =>
    by_cases hr : r.val = 0
    · have hzero : (Double.finite s r).isZero = true := beq_iff_eq.2 hr
      rw [textByMagnitude, if_pos hr, numberText, if_pos hzero]
    · obtain ⟨d, hcoarsest, hdigits⟩ := exists_isCoarsest hr
      have hextreme := isExtreme_iff hcoarsest hr
      have hds := isDigits_toDigits d.coefficient
      rw [textByMagnitude, if_neg hr, numberText_finite s hr, NumberStyle.numeral, hdigits]
      generalize Nat.toDigits 10 d.coefficient = ds at hextreme hds
      simp only [NumberStyle.place]
      split_ifs with hmagnitude hposition hposition
      · exact absurd hposition (hextreme.1 hmagnitude)
      · rw [signExponent_scaledText s hds]
      · rfl
      · exact absurd (hextreme.2 hposition) hmagnitude

/-! ### The string of a number -/

/-- The string of a finite number without sign is that of its shortest digits. -/
theorem isNumberString_finite {r : Fin Double.rankLimit} (hr : r.val ≠ 0) :
    IsNumberString (.finite false r) (numberText (.finite false r)).toList := by
  obtain ⟨d, hcoarsest, hdigits⟩ := exists_isCoarsest hr
  have hstring := IsNumberString.finite hr (Double.isShortest_of_isCoarsest hcoarsest hr)
  rw [← unsignedText_place (isDigits_toDigits _).1] at hstring
  rw [numberText_finite false hr, String.toList_ofList, NumberStyle.numeral, hdigits]
  exact hstring

/-- A sign is put in front. -/
theorem numberText_finite_neg {r : Fin Double.rankLimit} (hr : r.val ≠ 0) :
    (numberText (.finite true r)).toList = '-' :: (numberText (.finite false r)).toList := by
  rw [numberText_finite true hr, numberText_finite false hr, String.toList_ofList,
    String.toList_ofList]
  rfl

/-- **The string of a number.**  It is a string that ECMAScript allows for the number: its fewest
digits, with the point where they say.  And comparing the number with `1e21` and `1e-6` gives the
same string. -/
theorem numberText_spec (x : Double) :
    IsNumberString x (numberText x).toList ∧ textByMagnitude x = numberText x := by
  refine ⟨?_, textByMagnitude_eq x⟩
  cases x with
  | nan => exact .nan
  | infinite s =>
    cases s with
    | false => exact .infinite
    | true => exact .negative (by decide) .infinite
  | finite s r =>
    by_cases hr : r.val = 0
    · have hzero : Double.finite s r = .zero s := congrArg (Double.finite s) (Fin.ext hr)
      rw [hzero]
      exact .zero s
    cases s with
    | false => exact isNumberString_finite hr
    | true =>
      have hbelow : (Double.finite true r).lt? (.zero false) = some true := by
        simp only [Double.lt?, Double.place?, Double.zero, if_true, Option.some.injEq,
          decide_eq_true_iff]
        omega
      rw [numberText_finite_neg hr]
      exact .negative hbelow (isNumberString_finite hr)

end ActionTree
