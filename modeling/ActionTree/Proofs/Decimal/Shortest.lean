import ActionTree.Decimal.Shortest
import ActionTree.Proofs.Double.Rounding

/-!
# Shortest decimals read back

The shortest decimal of a magnitude is a hit of the search through the grids, or the exact expansion
when no grid has one.  Both are decimals whose nearest rank is the one searched for.

* `Decimal.firstFrom_cases` - how the search ends;
* `Decimal.nearestRank_shortest` - the shortest decimal of a rank reads back as this rank;
* `Decimal.coefficient_shortest` - so it is zero for zero only.
-/

namespace ActionTree.Decimal

/-- Zero reads back as zero. -/
theorem nearestRank_of_coefficient {d : Decimal} (h : d.coefficient = 0) :
    d.nearestRank = 0 := by
  have hnum : d.numerator = 0 := by
    rw [numerator, h, Nat.zero_mul, Nat.zero_mul]
  have hden : 0 < d.denominator := Nat.pow_pos (by decide)
  rw [nearestRank, hnum]
  exact Double.nearestRank_eq_zero hden

/-! ### Hits -/

theorem Tie.choose_cases (tie : Tie) (below rest den : Nat) :
    tie.choose below rest den = below ∨ tie.choose below rest den = below + 1 := by
  cases tie <;> simp only [choose] <;> split_ifs <;> omega

/-- Of two decimals that read back either may be taken. -/
theorem nearestRank_between? {tie : Tie} {r num den : Nat} {e : Int} {d : Decimal}
    (h : between? tie r num den e = some d) : d.nearestRank = r := by
  rw [between?] at h
  split_ifs at h with hbelow habove habove
  · cases h
    rcases tie.choose_cases (num / den) (num % den) den with hchoose | hchoose
    · rw [hchoose]
      exact hbelow
    · rw [hchoose]
      exact habove
  · cases h
    exact hbelow
  · cases h
    exact habove

theorem nearestRank_neighbour? {tie : Tie} {r : Nat} {e : Int} {d : Decimal}
    (h : neighbour? tie r e = some d) : d.nearestRank = r := by
  unfold neighbour? at h
  exact nearestRank_between? h

/-! ### The exact expansion -/

theorem denominator_neg (c n : Nat) : denominator ⟨c, -n⟩ = Nat.pow 5 n * 2 ^ n := by
  have hexponent : (-(-(n : Int))).toNat = n := by omega
  rw [denominator, hexponent]
  exact Nat.mul_pow 5 2 n

theorem unitCoefficient_eq : unitCoefficient = Nat.pow 5 1074 := by
  unfold unitCoefficient
  rfl

/-- The places of a unit, kept apart from their number so that no power is computed. -/
theorem exists_places : ∃ n : Nat, unitCoefficient = Nat.pow 5 n ∧ Double.one = 2 ^ n ∧
    ∀ r, expansion r = ⟨Double.rankUnits r * unitCoefficient, -n⟩ :=
  ⟨1074, unitCoefficient_eq, Double.one_eq, fun _ => rfl⟩

theorem denominator_expansion (r : Nat) :
    (expansion r).denominator = 1 * (unitCoefficient * Double.one) := by
  obtain ⟨n, hunit, hone, hexpansion⟩ := exists_places
  rw [hexpansion, denominator_neg, hunit, hone, Nat.one_mul]

/-- The exact expansion is the magnitude itself. -/
theorem nearestRank_expansion (r : Nat) : (expansion r).nearestRank = r := by
  have hnum : (expansion r).numerator = Double.rankUnits r * (unitCoefficient * Double.one) := by
    show Double.rankUnits r * unitCoefficient * 1 * Double.one = _
    rw [Nat.mul_one, Nat.mul_assoc]
  have hunits : 0 < unitCoefficient * Double.one := by
    rw [← Nat.one_mul (unitCoefficient * Double.one), ← denominator_expansion r]
    exact Nat.pow_pos (by decide)
  rw [nearestRank, hnum, denominator_expansion, Double.nearestRank_scale hunits,
    Double.nearestRank_rankUnits]

/-! ### The search -/

/-- A search ends with one of its results or without any. -/
theorem firstFrom_cases {α : Type} (search : Int → Option α) (otherwise : α) (fuel : Nat)
    (e : Int) : firstFrom search otherwise fuel e = otherwise ∨
      ∃ i, search i = some (firstFrom search otherwise fuel e) := by
  induction fuel generalizing e with
  | zero => exact .inl rfl
  | succ fuel ih =>
    rw [firstFrom]
    cases hsearch : search e with
    | some a => exact .inr ⟨e, hsearch⟩
    | none => exact ih (e - 1)

/-- The shortest decimal of a rank reads back as this rank. -/
theorem nearestRank_shortest (tie : Tie) (r : Nat) : (shortest tie r).nearestRank = r := by
  rcases firstFrom_cases (neighbour? tie r) (expansion r) (integerDigits r + 1074)
    (integerDigits r) with h | ⟨e, h⟩
  · rw [shortest, h]
    exact nearestRank_expansion r
  · exact nearestRank_neighbour? h

theorem coefficient_shortest (tie : Tie) {r : Nat} (hr : r ≠ 0) :
    (shortest tie r).coefficient ≠ 0 := by
  intro h
  have hzero := nearestRank_of_coefficient h
  rw [nearestRank_shortest] at hzero
  exact hr hzero

end ActionTree.Decimal
