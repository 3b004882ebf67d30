import ScriptFront.Binary64.Basic
import ScriptFront.Decimal.Digits

/-!
# Rounding to doubles

A nonnegative fraction is rounded to the nearest double, a half going to the even neighbour. The
fraction is first measured in units of 2⁻¹⁰⁷⁴; its leading bit fixes the spacing of the doubles
around it, and one division rounded to even yields the rank. A carry out of the significand moves
on to the next exponent by itself, because ranks are consecutive.
-/
namespace ScriptFront.Binary64

/-- The whole number nearest to `num / den`, a half going to the even neighbour. -/
def halfEven (num den : Nat) : Nat :=
  let q := num / den
  let twice := 2 * (num % den)
  if twice < den then q else if den < twice then q + 1 else q + q % 2

/-- The rank of the double nearest to `num / den`, as if exponents had no upper end. -/
def nearestRank (num den : Nat) : Nat :=
  let scaled := num * unitsPerOne
  let spacing := (scaled / den).log2 - 52
  spacing * fractionCount + halfEven scaled (den * Nat.pow 2 spacing)

/-- The double of a sign and a rank: infinite when the rank lies beyond the finite ones. -/
def ofRank (negative : Bool) (rank : Nat) : Binary64 :=
  if h : rank < rankBound then finite negative ⟨rank, h⟩ else infinity negative

/-- The double nearest to `num / den`; infinity from half a spacing above the largest double. -/
def ofRatio (num den : Nat) : Binary64 := ofRank false (nearestRank num den)

/-- The double a numeral denotes, given the digits before and after its point. -/
def ofNumeral (whole fraction : List Char) : Binary64 :=
  ofRatio (Decimal.ofDigits (whole ++ fraction)) (Nat.pow 10 fraction.length)

/-- The double nearest to an integer, or none where that is too large for a finite double. -/
def ofInt? (n : Int) : Option Binary64 :=
  match ofRank (decide (n < 0)) (nearestRank n.natAbs 1) with
  | infinity _ => none
  | x => some x

end ScriptFront.Binary64
