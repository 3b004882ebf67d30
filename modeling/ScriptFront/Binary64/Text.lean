import ScriptFront.Binary64.Shortest

/-!
# Written forms of doubles

The canonical form is what scripts see: it has a point, never an exponent, and shows a whole
number exactly, at any size. The compact form is what token descriptions show: it has the shortest
digits, and an exponent once the positional form would grow long.
-/
namespace ScriptFront.Binary64

def isWhole (rank : Nat) : Bool := magnitude rank % unitsPerOne == 0

def signed (negative : Bool) (text : List Char) : String :=
  String.ofList (if negative then '-' :: text else text)

/-- The canonical decimal of a finite absolute value: exact where whole, else the shortest. -/
def canonicalDecimal (rank : Nat) : Decimal :=
  if isWhole rank then ⟨magnitude rank / unitsPerOne, 0⟩ else shortest rank

def canonical : Binary64 → String
  | nan => "NaN"
  | infinity negative => if negative then "-Infinity" else "Infinity"
  | finite negative rank => signed negative (canonicalDecimal rank).positional

/-- Whether the compact form of a decimal is positional: from 10⁻⁴ up to below 10¹⁶. -/
def writtenPositionally (d : Decimal) : Bool := decide (-4 < d.point ∧ d.point ≤ 16)

def compact : Binary64 → String
  | nan => "nan"
  | infinity negative => if negative then "-inf" else "inf"
  | finite negative rank =>
    let d := shortest rank
    signed negative (if writtenPositionally d then d.positional else d.scientific)

end ScriptFront.Binary64
