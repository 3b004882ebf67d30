import ScriptFront.Expr.Basic
import ScriptFront.Proofs.Rounding

/-!
# Equality and texts

Expressions are compared by the quantities of their numbers, and written with their signs. So equal
expressions have the same text except for one pair of literals: the two zeros, which are one
quantity and are written apart.
-/
namespace ScriptFront

namespace Binary64

def zero (negative : Bool) : Binary64 := finite negative ⟨0, by decide⟩

theorem eq_zero_of_magnitude {negative : Bool} {rank : Fin rankBound} (h : magnitude rank = 0) :
    finite negative rank = zero negative := by
  have first : rank.val = 0 := magnitude_injective (h.trans (by decide))
  rw [zero, Fin.ext (b := ⟨0, by decide⟩) first]

/-- One quantity belongs to one double, except for that of the zeros. -/
theorem eq_or_zeros_of_quantity {x y : Binary64} (h : x.quantity.equal y.quantity = true) :
    x = y ∨ ∃ negative, x = zero negative ∧ y = zero !negative := by
  have same : x.quantity = y.quantity ∧ x.quantity ≠ .nan := by
    simpa [Quantity.equal] using h
  cases x with
  | nan => exact absurd rfl same.2
  | infinity negative =>
    cases y <;> simp only [quantity, reduceCtorEq, false_and, Quantity.infinity.injEq] at same
    rw [same.1]
    exact .inl rfl
  | finite negative rank =>
    cases y <;> simp only [quantity, reduceCtorEq, false_and, Quantity.units.injEq] at same
    rename_i negative' rank'
    by_cases sign : negative' = negative
    · subst sign
      have magnitudes : magnitude rank = magnitude rank' := by
        cases negative' <;> simp only [if_true, Bool.false_eq_true, if_false] at same <;> omega
      left
      rw [Fin.ext (magnitude_injective magnitudes)]
    · -- With opposite signs both sides are zero.
      obtain rfl : negative' = !negative := Bool.eq_not_of_ne sign
      have none : magnitude rank = 0 ∧ magnitude rank' = 0 := by
        cases negative <;> simp only [Bool.not_true, Bool.not_false, if_true, Bool.false_eq_true,
          if_false] at same <;> omega
      right
      exact ⟨negative, eq_zero_of_magnitude none.1, eq_zero_of_magnitude none.2⟩

theorem signed_true_ne (text : List Char) : signed true text ≠ signed false text := by
  intro same
  have chars : '-' :: text = text := String.ofList_injective same
  exact List.cons_ne_self _ _ chars

theorem canonical_zero_ne (negative : Bool) :
    (zero negative).canonical ≠ (zero !negative).canonical := by
  cases negative with
  | true => exact signed_true_ne _
  | false => exact (signed_true_ne _).symm

end Binary64

namespace Atom

/-- Two literals that are zeros of opposite sign. -/
def OppositeZeros (x y : Atom) : Prop :=
  ∃ negative, x = number (.zero negative) ∧ y = number (.zero !negative)

theorem OppositeZeros.text_ne {x y : Atom} (h : OppositeZeros x y) : x.text ≠ y.text := by
  obtain ⟨negative, rfl, rfl⟩ := h
  exact Binary64.canonical_zero_ne negative

theorem eq_or_oppositeZeros {x y : Atom} (h : x.equal y = true) : x = y ∨ OppositeZeros x y := by
  cases x with
  | number a =>
    cases y <;> simp only [equal, Bool.false_eq_true] at h
    rcases Binary64.eq_or_zeros_of_quantity h with rfl | ⟨negative, rfl, rfl⟩
    · exact .inl rfl
    · exact .inr ⟨negative, rfl, rfl⟩
  | boolean a | string a =>
    cases y <;> simp only [equal, Bool.false_eq_true] at h
    rw [eq_of_beq h]
    exact .inl rfl
  | nil =>
    cases y <;> simp only [equal, Bool.false_eq_true] at h
    exact .inl rfl

end Atom

namespace Expr

/-- The literal inside all groupings and operators. -/
def innermost : Expr → Atom
  | literal value _ => value
  | grouping inner _ => inner.innermost
  | unary _ operand _ => operand.innermost

theorem innermost_equal {a b : Expr} (h : a.equal b = true) :
    a.innermost.equal b.innermost = true := by
  induction a generalizing b with
  | literal value line =>
    cases b <;> simp only [equal, Bool.false_eq_true] at h
    exact h
  | grouping inner line ih =>
    cases b <;> simp only [equal, Bool.false_eq_true] at h
    rw [innermost, innermost]
    exact ih h
  | unary operator operand line ih =>
    cases b <;> simp only [equal, Bool.false_eq_true, Bool.and_eq_true] at h
    rw [innermost, innermost]
    exact ih h.2

/-- Around their literals equal expressions have the same text. -/
theorem textFrom_eq_iff {a b : Expr} (h : a.equal b = true) (written : String) (depth : Nat) :
    textFrom written depth a = textFrom written depth b ↔ a.innermost.text = b.innermost.text := by
  induction a generalizing b written depth with
  | literal value line =>
    cases b <;> simp only [equal, Bool.false_eq_true] at h
    simp only [textFrom, innermost, String.append_left_inj, String.append_right_inj]
  | grouping inner line ih =>
    cases b <;> simp only [equal, Bool.false_eq_true] at h
    exact ih h _ _
  | unary operator operand line ih =>
    cases b <;> simp only [equal, Bool.false_eq_true, Bool.and_eq_true] at h
    rename_i operator' operand' line'
    have lexemes : operator.lexeme = operator'.lexeme := by
      have fields := h.1
      simp only [Token.equal, Bool.and_eq_true, beq_iff_eq] at fields
      exact fields.1.1.2
    rw [textFrom, textFrom, lexemes]
    exact ih h.2 _ _

/-- Equal expressions have the same text just where their literals are not the two zeros. -/
theorem text_eq_iff_of_equal {a b : Expr} (h : a.equal b = true) :
    a.text = b.text ↔ ¬Atom.OppositeZeros a.innermost b.innermost := by
  rw [text, text, textFrom_eq_iff h]
  constructor
  · intro same opposite
    exact opposite.text_ne same
  · intro notOpposite
    rcases Atom.eq_or_oppositeZeros (innermost_equal h) with same | opposite
    · rw [same]
    · exact absurd opposite notOpposite

/-- A zero under a sign and a grouping, with all nodes on one line. -/
def signedZero (negative : Bool) (line : Int) : Expr :=
  grouping (unary ⟨.minus, "-", .null, 1⟩ (literal (.number (.zero negative)) line) line) line

/-- On other lines the expression is equal to itself, and has the same text. -/
theorem text_eq_iff_signedZero :
    (signedZero true 1).equal (signedZero true 2) = true ∧
      ((signedZero true 1).text = (signedZero true 2).text ↔
        ¬Atom.OppositeZeros (signedZero true 1).innermost (signedZero true 2).innermost) := by
  have same : (signedZero true 1).equal (signedZero true 2) = true := by decide +kernel
  exact ⟨same, text_eq_iff_of_equal same⟩

/-- The two zeros are equal, and have different texts. -/
theorem text_ne_of_zeros :
    (literal (.number (.zero false)) 1).equal (literal (.number (.zero true)) 1) = true ∧
      (literal (.number (.zero false)) 1).text ≠ (literal (.number (.zero true)) 1).text := by
  have same : (literal (.number (.zero false)) 1).equal
      (literal (.number (.zero true)) 1) = true := by decide +kernel
  refine ⟨same, ?_⟩
  rw [text, text, ne_eq, textFrom_eq_iff same]
  exact Binary64.canonical_zero_ne false

end Expr

end ScriptFront
