import Mathlib.Algebra.Order.Ring.Abs
import ScriptFront.Proofs.NumberText

/-!
# Canonical form

The canonical form of every finite double, with its sign. The whole part is the whole part of the
double, and what stands behind the point is zero for a whole number, and otherwise makes the text
the shortest decimal that is rounded to the double, and the nearest one of that length.
-/
namespace ScriptFront

theorem Decimal.Expansion.eq_zero {ds : List Char} (h : Expansion ds 0) : ds = ['0'] := by
  obtain ⟨x, more, rfl⟩ := List.exists_cons_of_ne_nil h.numeral.ne_nil
  have digits := ofDigits_append_list [x] more
  rw [List.singleton_append, h.value] at digits
  have first : ofDigits [x] = 0 := by
    by_contra some
    have pos : 0 < 10 ^ more.length := Nat.pow_pos (by decide)
    have := Nat.mul_pos (Nat.pos_of_ne_zero some) pos
    omega
  have zero : x = '0' := by
    have low : 48 ≤ x.toNat := (h.numeral.digit x (by simp)).1
    have value : x.toNat - 48 = 0 := by simpa [ofDigits, digitValue] using first
    exact Char.toNat_inj.1 (show x.toNat = 48 by omega)
  exact h.leading (by rw [zero]; rfl)

namespace Binary64

/-- A coefficient with the sign of a double. -/
def signedCoefficient (negative : Bool) (coefficient : Nat) : ℤ :=
  if negative then -coefficient else coefficient

/-- The digits of a coefficient, without its sign. -/
def digitCount (coefficient : ℤ) : Nat := (Decimal.digits coefficient.natAbs).length

/-- `IsShortest negative rank c e`: the decimal `c * 10 ^ e` is rounded to the double. No decimal of
fewer digits is, and none of as many that is nearer to the double. -/
structure IsShortest (negative : Bool) (rank : Fin rankBound) (c e : ℤ) : Prop where
  rounded : Rounded (c * 10 ^ e) (finite negative rank)
  fewest (c' e' : ℤ) : Rounded (c' * 10 ^ e') (finite negative rank) → digitCount c ≤ digitCount c'
  nearest (c' e' : ℤ) : Rounded (c' * 10 ^ e') (finite negative rank) →
    digitCount c' = digitCount c →
      |c * 10 ^ e - signedValue negative rank| ≤ |c' * 10 ^ e' - signedValue negative rank|

theorem abs_decimal (c e : ℤ) : |(c * 10 ^ e : ℚ)| = c.natAbs * 10 ^ e := by
  have pos : (0 : ℚ) < 10 ^ e := zpow_pos (by norm_num) e
  rw [abs_mul, abs_of_pos pos, Nat.cast_natAbs, Int.cast_abs]

variable {negative : Bool} {rank : Fin rankBound}

/-- With the sign of the double a shortest decimal is one among the decimals with either sign. -/
theorem Shortest.isShortest {d : Decimal} (h : Shortest rank d) :
    IsShortest negative rank (signedCoefficient negative d.coefficient) d.exponent := by
  have pos : (0 : ℚ) < 10 ^ d.exponent := zpow_pos (by norm_num) _
  have some : d.coefficient ≠ 0 := by
    intro zero
    have ends := h.ends
    rw [zero] at ends
    exact ends rfl
  have count : (signedCoefficient negative d.coefficient).natAbs = d.coefficient := by
    unfold signedCoefficient
    cases negative <;> simp
  have sign : negative =
      decide ((signedCoefficient negative d.coefficient * 10 ^ d.exponent : ℚ) < 0) := by
    unfold signedCoefficient
    cases negative with
    | true => simp [pos, Nat.pos_of_ne_zero some]
    | false => simp [mul_nonneg, pos.le]
  have size : |(signedCoefficient negative d.coefficient * 10 ^ d.exponent : ℚ)| = d.value := by
    rw [abs_decimal, count, Decimal.value]
  -- Rounded to the double, a decimal has the same sign and is as far away as without it.
  have competitor (c e : ℤ) (rounded : Rounded (c * 10 ^ e) (finite negative rank)) :
      Covers rank (c.natAbs * 10 ^ e) ∧
        |c * 10 ^ e - signedValue negative rank| = |value rank - c.natAbs * 10 ^ e| := by
    obtain ⟨sign, covers⟩ := rounded_finite_iff.1 rounded
    rw [abs_decimal] at covers
    refine ⟨covers, ?_⟩
    rw [sign, abs_sub_signedValue, abs_decimal, abs_sub_comm]
  have rounded : Rounded (signedCoefficient negative d.coefficient * 10 ^ d.exponent)
      (finite negative rank) := by
    rw [rounded_finite_iff, size]
    exact ⟨sign, h.covers⟩
  refine ⟨rounded, ?_, ?_⟩
  · intro c e other
    rw [digitCount, count]
    exact h.fewest _ e (competitor c e other).1
  · intro c e other same
    rw [digitCount, digitCount, count] at same
    have distance := (competitor _ _ rounded).2
    rw [count] at distance
    rw [distance, (competitor c e other).2]
    exact h.nearest _ e (competitor c e other).1 same

theorem isWhole_iff_floor : isWhole rank = true ↔ value rank = ⌊value rank⌋₊ := by
  constructor
  · intro whole
    rw [value_of_isWhole whole, Nat.floor_natCast]
  · intro same
    have covers := Covers.self rank
    rw [same] at covers
    exact isWhole_iff.2 covers.unitsPerOne_dvd

/-- The canonical form of a finite double is a sign where the sign is set, zero included, the digits
of the whole part, a point, and more digits. A whole number is exact and has one zero behind the
point. Any other number is the shortest decimal that is rounded to it, and does not end in a zero.
-/
theorem canonical_finite (negative : Bool) (rank : Fin rankBound) : ∃ whole fraction,
    (canonical (finite negative rank)).toList =
        (if negative then ['-'] else []) ++ (whole ++ '.' :: fraction) ∧
      Decimal.Expansion whole ⌊value rank⌋₊ ∧ (value rank < 1 → whole = ['0']) ∧
      if value rank = ⌊value rank⌋₊ then fraction = ['0']
      else Numeral fraction ∧ fraction.getLast? ≠ some '0' ∧
        IsShortest negative rank (signedCoefficient negative (Decimal.ofDigits (whole ++ fraction)))
          (-fraction.length) := by
  have text (ds : List Char) : (signed negative ds).toList =
      (if negative then ['-'] else []) ++ ds := by
    cases negative <;> simp [signed]
  have below {whole : List Char} (expansion : Decimal.Expansion whole ⌊value rank⌋₊)
      (small : value rank < 1) : whole = ['0'] := by
    rw [Nat.floor_eq_zero.2 small] at expansion
    exact expansion.eq_zero
  rw [canonical, text]
  cases whole : isWhole rank with
  | true =>
    obtain ⟨ds, form, expansion, -⟩ := exists_positional_whole whole
    refine ⟨ds, ['0'], by rw [form], expansion, below expansion, ?_⟩
    rw [if_pos (isWhole_iff_floor.1 whole)]
  | false =>
    have notWhole : ¬value rank = ⌊value rank⌋₊ := by
      rw [← isWhole_iff_floor, whole]
      exact Bool.false_ne_true
    obtain ⟨ds, fs, form, expansion, places, last, short⟩ := exists_positional_shortest whole
    refine ⟨ds, fs, by rw [form], expansion, below expansion, ?_⟩
    rw [if_neg notWhole]
    exact ⟨places, last, short.isShortest⟩

end Binary64
end ScriptFront
