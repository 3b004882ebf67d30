import ScriptFront.Binary64.Text
import ScriptFront.Proofs.Lexeme

/-!
# Forms with a sign

A form in which doubles are written with a sign in front of what is written without one, finite ones
beginning with a digit, infinite ones with a letter and NaN with another. The first character behind
the sign tells which kind of double it is. So no two doubles are written the same in such a form
unless two finite ones without a sign are.
-/
namespace ScriptFront.Binary64

/-- A form with a sign, in which `i` begins infinity and `n` begins NaN. -/
structure SignedForm (form : Binary64 → String) (i n : Char) : Prop where
  finite_injective {rank rank' : Fin rankBound} :
    form (finite false rank) = form (finite false rank') → rank = rank'
  finite_first (rank : Fin rankBound) :
    ∃ x more, (form (finite false rank)).toList = x :: more ∧ Digit x
  finite_sign (rank : Fin rankBound) :
    (form (finite true rank)).toList = '-' :: (form (finite false rank)).toList
  infinite_first : ∃ more, (form (infinity false)).toList = i :: more
  infinite_sign : (form (infinity true)).toList = '-' :: (form (infinity false)).toList
  nan_first : ∃ more, (form nan).toList = n :: more
  letters : ¬Digit i ∧ ¬Digit n ∧ i ≠ n ∧ i ≠ '-' ∧ n ≠ '-'

def signOf (negative : Bool) : List Char := if negative then ['-'] else []

/-- `First i n x negative c`: the double is written with that sign and `c` behind it. -/
inductive First (i n : Char) : Binary64 → Bool → Char → Prop
  | nan : First i n nan false n
  | infinite (negative : Bool) : First i n (infinity negative) negative i
  | finite (negative : Bool) (rank : Fin rankBound) {c : Char} (digit : Digit c) :
      First i n (finite negative rank) negative c

namespace SignedForm

variable {form : Binary64 → String} {i n : Char}

theorem exists_first (h : SignedForm form i n) (x : Binary64) : ∃ negative c more,
    (form x).toList = signOf negative ++ c :: more ∧ First i n x negative c := by
  cases x with
  | nan =>
    obtain ⟨more, text⟩ := h.nan_first
    exact ⟨false, n, more, text, .nan⟩
  | infinity negative =>
    obtain ⟨more, text⟩ := h.infinite_first
    cases negative with
    | false => exact ⟨false, i, more, text, .infinite false⟩
    | true => exact ⟨true, i, more, by rw [h.infinite_sign, text]; rfl, .infinite true⟩
  | finite negative rank =>
    obtain ⟨c, more, text, digit⟩ := h.finite_first rank
    cases negative with
    | false => exact ⟨false, c, more, text, .finite false rank digit⟩
    | true => exact ⟨true, c, more, by rw [h.finite_sign, text]; rfl, .finite true rank digit⟩

theorem first_ne (h : SignedForm form i n) {x : Binary64} {negative : Bool} {c : Char}
    (first : First i n x negative c) : c ≠ '-' := by
  obtain ⟨-, -, -, infinite, nan⟩ := h.letters
  cases first with
  | nan => exact nan
  | infinite => exact infinite
  | finite _ _ digit =>
    rintro rfl
    exact absurd digit (by decide)

theorem injective (h : SignedForm form i n) : Function.Injective form := by
  intro x y same
  obtain ⟨negative, c, more, text, first⟩ := h.exists_first x
  obtain ⟨negative', c', more', text', first'⟩ := h.exists_first y
  have heads := text.symm.trans ((congrArg String.toList same).trans text')
  have signs : negative = negative' ∧ c = c' := by
    have noSign := h.first_ne first
    have noSign' := h.first_ne first'
    cases negative <;> cases negative' <;> simp_all [signOf]
  obtain ⟨rfl, rfl⟩ := signs
  obtain ⟨infinite, nan, apart, -, -⟩ := h.letters
  cases first with
  | nan =>
    cases first' with
    | nan => rfl
    | infinite => exact absurd rfl apart
    | finite _ _ digit => exact absurd digit nan
  | infinite =>
    cases first' with
    | nan => exact absurd rfl apart
    | infinite => rfl
    | finite _ _ digit => exact absurd digit infinite
  | finite _ rank digit =>
    cases first' with
    | nan => exact absurd digit nan
    | infinite => exact absurd digit infinite
    | finite _ rank' =>
      have unsigned : form (.finite false rank) = form (.finite false rank') := by
        cases negative with
        | false => exact same
        | true =>
          have chars := congrArg String.toList same
          rw [h.finite_sign, h.finite_sign] at chars
          exact String.toList_inj.1 (List.cons.inj chars).2
      rw [h.finite_injective unsigned]

/-- No double is written with anything else in front than a digit, a sign or one of the letters. -/
theorem ne_cons (h : SignedForm form i n) {c : Char} (cs : List Char)
    (other : ¬Digit c ∧ c ≠ '-' ∧ c ≠ i ∧ c ≠ n) (x : Binary64) : (form x).toList ≠ c :: cs := by
  obtain ⟨noDigit, noSign, noInfinite, noNan⟩ := other
  intro same
  obtain ⟨negative, c', more, text, first⟩ := h.exists_first x
  rw [same] at text
  cases negative with
  | true => exact noSign (List.cons.inj text).1
  | false =>
    obtain ⟨rfl, -⟩ := List.cons.inj text
    cases first with
    | nan => exact noNan rfl
    | infinite => exact noInfinite rfl
    | finite _ _ digit => exact noDigit digit

end SignedForm
end ScriptFront.Binary64
