import ActionTree.Proofs.Decimal.Numeral
import ActionTree.Proofs.Decimal.Rounding

/-!
# The numeral of a double is read back

Wherever a style puts the point, the numeral spells the digits and the exponent that it was made
from.  Those of a finite double are its shortest decimal, which is rounded to this double.

* `Numeral.toDouble_positional`, `Numeral.toDecimal_scientific` - the two ways to place a point;
* `NumberStyle.toDouble_numeral` - the numeral of a finite double has this double as its value.
-/

namespace ActionTree

namespace Numeral

/-! ### Values of digits -/

theorem digitsValue_append (start : Nat) (cs ds : List Char) :
    digitsValue start (cs ++ ds) = digitsValue (digitsValue start cs) ds :=
  List.foldl_append

theorem digitsValue_zeros (start k : Nat) :
    digitsValue start (List.replicate k '0') = start * 10 ^ k := by
  induction k generalizing start with
  | zero => exact (Nat.mul_one start).symm
  | succ k ih =>
    show digitsValue (start * 10) (List.replicate k '0') = start * 10 ^ (k + 1)
    rw [ih, Nat.pow_succ', Nat.mul_assoc]

theorem exponentValue_toDigits (i : Int) :
    exponentValue (some (decide (i < 0), Nat.toDigits 10 i.natAbs)) = i := by
  rw [exponentValue, digitsValue_toDigits]
  simp only [decide_eq_true_eq]
  split_ifs <;> omega

/-! ### Places of the point -/

/-- Written in full, `0.ds * 10 ^ n` is rounded as the number that its digits and its exponent
spell. -/
theorem toDouble_positional (s : Bool) (ds : List Char) (n : Int) :
    (positional none ds n).toDecimal.toDouble s =
      Decimal.toDouble s ⟨digitsValue 0 ds, n - ds.length⟩ := by
  rw [positional]
  split_ifs with hpoint hlength
  · -- zeros before the digits add nothing
    have hvalue : digitsValue (digitsValue 0 ['0']) (List.replicate (-n).toNat '0' ++ ds) =
        digitsValue 0 ds := by
      rw [digitsValue_append, digitsValue_zeros]
      exact congrArg (digitsValue · ds) (Nat.zero_mul _)
    have hexponent : (0 : Int) - (List.replicate (-n).toNat '0' ++ ds).length =
        n - ds.length := by
      rw [List.length_append, List.length_replicate]
      omega
    simp only [toDecimal, Option.getD_some, exponentValue]
    rw [hvalue, hexponent]
  · -- zeros behind them count as an exponent
    have hexponent : n - ds.length = (n.toNat - ds.length : Nat) := by omega
    rw [hexponent, ← Decimal.toDouble_shift, ← digitsValue_zeros, ← digitsValue_append]
    rfl
  · -- the digits behind the point do not count
    have hexponent : (0 : Int) - (ds.drop n.toNat).length = n - ds.length := by
      rw [List.length_drop]
      omega
    simp only [toDecimal, Option.getD_some, exponentValue]
    rw [← digitsValue_append, List.take_append_drop, hexponent]

theorem toDecimal_scientific {ds : List Char} (hds : ds ≠ []) (n : Int) :
    (scientific ds n).toDecimal = ⟨digitsValue 0 ds, n - ds.length⟩ := by
  have hlength : 0 < ds.length := List.length_pos_iff.2 hds
  have hsign : decide (n ≤ 0) = decide (n - 1 < 0) := decide_eq_decide.2 (by omega)
  simp only [scientific, toDecimal]
  rw [hsign, exponentValue_toDigits]
  split_ifs with hone
  · -- a single digit needs no point
    have hexponent : n - 1 - (0 : Nat) = n - ds.length := by omega
    rw [List.take_of_length_le hone]
    exact congrArg (Decimal.mk _) hexponent
  · have hexponent : n - 1 - ((ds.drop 1).length : Int) = n - ds.length := by
      rw [List.length_drop]
      omega
    rw [Option.getD_some, ← digitsValue_append, List.take_append_drop, hexponent]

end Numeral

namespace NumberStyle

variable {style : NumberStyle}

theorem toDouble_place (hintegral : style.integral = none) (s : Bool) {ds : List Char}
    (hds : ds ≠ []) (e : Int) :
    (style.place ds e).toDecimal.toDouble s =
      Decimal.toDouble s ⟨Numeral.digitsValue 0 ds, e⟩ := by
  have hexponent : ds.length + e - ds.length = e := by omega
  simp only [place]
  split_ifs
  · rw [hintegral, Numeral.toDouble_positional, hexponent]
  · rw [Numeral.toDecimal_scientific hds, hexponent]

/-- The digits of a decimal and its exponent read back as the decimal does. -/
theorem nearestRank_toDigits {d : Decimal} {r : Nat} (h : d.nearestRank = r) :
    Decimal.nearestRank ⟨Numeral.digitsValue 0 (Nat.toDigits 10 d.coefficient), d.exponent⟩ = r := by
  rw [Numeral.digitsValue_toDigits]
  exact h

/-- A rank has digits, and with their exponent these read back as this rank. -/
theorem exists_digits (style : NumberStyle) (r : Nat) : ∃ ds e, style.digits r = (ds, e) ∧
    ds ≠ [] ∧ Decimal.nearestRank ⟨Numeral.digitsValue 0 ds, e⟩ = r := by
  by_cases hr : r = 0
  · refine ⟨['0'], 0, if_pos hr, List.cons_ne_nil _ _, ?_⟩
    rw [hr]
    exact Decimal.nearestRank_of_coefficient rfl
  · exact ⟨_, _, if_neg hr, Nat.toDigits_ne_nil,
      nearestRank_toDigits (Decimal.nearestRank_shortest style.tie r)⟩

/-- The numeral of a finite double has this double as its value. -/
theorem toDouble_numeral (hintegral : style.integral = none) (s : Bool)
    (r : Fin Double.rankLimit) : (style.numeral s r).toDouble = .finite s r := by
  obtain ⟨ds, e, hdigits, hds, hrank⟩ := style.exists_digits r
  show (style.place (style.digits r).1 (style.digits r).2).toDecimal.toDouble s = _
  rw [hdigits, toDouble_place hintegral s hds]
  exact Decimal.toDouble_eq_finite s hrank

end NumberStyle

end ActionTree
