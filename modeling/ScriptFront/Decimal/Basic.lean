import ScriptFront.Decimal.Digits

/-!
# Decimal numbers and their written forms

A decimal is a coefficient times a power of ten. It has two written forms: positional, which
always shows a point with a digit on either side of it, and scientific, with a signed exponent of
at least two digits.
-/
namespace ScriptFront

/-- The number `coefficient * 10 ^ exponent`. -/
structure Decimal where
  coefficient : Nat
  exponent : Int
deriving DecidableEq, Repr

namespace Decimal

/-- A coefficient and an exponent without zeros at the end of the coefficient; zero itself has the
exponent zero. -/
def trim (coefficient : Nat) (exponent : Int) : Decimal :=
  if coefficient = 0 then ⟨0, 0⟩
  else if coefficient % 10 = 0 then trim (coefficient / 10) (exponent + 1)
  else ⟨coefficient, exponent⟩
termination_by coefficient

/-- Where the point stands, counted from the first digit: the number is `0.d₁d₂… * 10 ^ point`. -/
def point (d : Decimal) : Int := d.exponent + (digits d.coefficient).length

/-- Digits with a point before the last `places` of them, and zeros in front where they run out. -/
def pointed (ds : List Char) (places : Nat) : List Char :=
  let padded := List.replicate (places + 1 - ds.length) '0' ++ ds
  padded.take (padded.length - places) ++ '.' :: padded.drop (padded.length - places)

/-- The positional form. A whole number keeps the one decimal place `0`. -/
def positional (d : Decimal) : List Char :=
  match d.exponent with
  | .ofNat zeros => digits d.coefficient ++ List.replicate zeros '0' ++ ['.', '0']
  | .negSucc n => pointed (digits d.coefficient) (n + 1)

/-- A number of at least two digits. -/
def twoDigits (n : Nat) : List Char := if n < 10 then '0' :: digits n else digits n

/-- The scientific form: one digit before the point, and no point when no digit follows. -/
def scientific (d : Decimal) : List Char :=
  let e := d.point - 1
  let mantissa := match digits d.coefficient with
    | first :: second :: more => first :: '.' :: second :: more
    | single => single
  mantissa ++ 'e' :: (if e < 0 then '-' else '+') :: twoDigits e.natAbs

end Decimal
end ScriptFront
