import ScriptFront.Binary64.Rounding
import ScriptFront.Decimal.Basic

/-!
# The shortest decimal of a double

Among the decimals that round to a double, the shortest has the fewest digits, and lies nearest to
the double among those of that many digits. The search measures the double in units of 10⁻¹⁰⁷⁴, in
which it is a whole number, and tries coarse grids before fine ones; on each grid only the two
neighbours of the double need a look. The finest grid holds the double itself, so the search ends.
-/
namespace ScriptFront.Binary64

/-- A finite absolute value in units of 10⁻¹⁰⁷⁴. -/
def decimalUnits (rank : Nat) : Nat := magnitude rank * Nat.pow 5 1074

/-- Whether `coefficient * 10 ^ place` units of 10⁻¹⁰⁷⁴ round to the double of that rank. -/
def readsBack (rank coefficient place : Nat) : Bool :=
  nearestRank (coefficient * Nat.pow 10 place) (Nat.pow 10 1074) == rank

/-- The neighbour on the grid of `10 ^ place` that reads back: the nearer where both do, and the
even one where both are equally near. -/
def neighbour? (rank place : Nat) : Option Nat :=
  let low := decimalUnits rank / Nat.pow 10 place
  let nearer := halfEven (decimalUnits rank) (Nat.pow 10 place)
  [nearer, low, low + 1].find? (readsBack rank · place)

/-- The decimal of the coarsest grid that has one, from `10 ^ place` down. The finest grid, which is
that of place zero, has the decimal `finest`. -/
def coarsest (decimal? : Nat → Option Decimal) (finest : Decimal) : (place : Nat) → Decimal
  | 0 => finest
  | place + 1 =>
    match decimal? (place + 1) with
    | some decimal => decimal
    | none => coarsest decimal? finest place

def onGrid (place coefficient : Nat) : Decimal := Decimal.trim coefficient (place - 1074)

/-- The first grid, from `10 ^ place` down, on which a neighbour reads back. -/
def search (rank place : Nat) : Decimal :=
  coarsest (fun place => (neighbour? rank place).map (onGrid place)) (onGrid 0 (decimalUnits rank))
    place

/-- The shortest decimal that rounds to the double of a rank. -/
def shortest (rank : Nat) : Decimal := search rank (Decimal.log10 (decimalUnits rank))

end ScriptFront.Binary64
