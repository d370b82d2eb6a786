import ActionTree.Decimal.Basic

/-!
# The shortest decimal of a double

Among the decimals that read back as a given double, the shortest lie on the coarsest grid
`10 ^ e` that has any.  A grid that has one has it next to the double, so the two neighbours on
each grid are enough to look at.

* `Decimal.neighbour?` - the nearest decimal on one grid, if it reads back;
* `Decimal.firstFrom` - a search downward;
* `Decimal.shortest` - the first hit on ever finer grids, ending at the exact expansion.
-/

namespace ActionTree.Decimal

/-- Which of two equally near decimals is taken. -/
inductive Tie where
  | up
  | even
  deriving DecidableEq

/-- The nearest coefficient when `rest / den` is left over above `below`. -/
def Tie.choose (tie : Tie) (below rest den : Nat) : Nat :=
  if 2 * rest < den then below
  else if den < 2 * rest then below + 1
  else match tie with
    | .up => below + 1
    | .even => below + below % 2

/-- The multiple of `10 ^ e` nearest to `num / den` of them, of the two next to it that read back as
rank `r`. -/
def between? (tie : Tie) (r num den : Nat) (e : Int) : Option Decimal :=
  if nearestRank ⟨num / den, e⟩ = r then
    if nearestRank ⟨num / den + 1, e⟩ = r then some ⟨tie.choose (num / den) (num % den) den, e⟩
    else some ⟨num / den, e⟩
  else if nearestRank ⟨num / den + 1, e⟩ = r then some ⟨num / den + 1, e⟩
  else none

/-- The multiple of `10 ^ e` nearest to the magnitude of rank `r`, of the two next to it that read
back as rank `r`. -/
def neighbour? (tie : Tie) (r : Nat) (e : Int) : Option Decimal :=
  between? tie r (Double.rankUnits r * Nat.pow 10 (-e).toNat)
    (Double.one * Nat.pow 10 e.toNat) e

/-- A unit in multiples of `10 ^ -1074`. -/
@[irreducible] def unitCoefficient : Nat := Nat.pow 5 1074

/-- The exact expansion of the magnitude of rank `r`. -/
def expansion (r : Nat) : Decimal := ⟨Double.rankUnits r * unitCoefficient, -1074⟩

/-- The first result of a search from `e` downward, in at most `fuel` places. -/
def firstFrom {α : Type} (search : Int → Option α) (otherwise : α) : Nat → Int → α
  | 0, _ => otherwise
  | fuel + 1, e =>
    match search e with
    | some a => a
    | none => firstFrom search otherwise fuel (e - 1)

/-- The number of decimal digits of the integer part of rank `r`. -/
def integerDigits (r : Nat) : Nat := (Nat.toDigits 10 (Double.rankUnits r / Double.one)).length

/-- The shortest decimal that reads back as rank `r`, and of those the nearest: the first hit on
ever finer grids. -/
def shortest (tie : Tie) (r : Nat) : Decimal :=
  firstFrom (neighbour? tie r) (expansion r) (integerDigits r + 1074) (integerDigits r)

end ActionTree.Decimal
