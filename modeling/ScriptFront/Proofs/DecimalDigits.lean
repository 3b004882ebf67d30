import Mathlib.Algebra.Field.Rat
import Mathlib.Algebra.GroupWithZero.Basic
import Mathlib.Data.List.Induction
import Mathlib.Data.Nat.Log
import Mathlib.Tactic.NormNum
import Mathlib.Tactic.Ring
import ScriptFront.Decimal.Basic
import ScriptFront.Proofs.Lexeme

/-!
# Digits

How many digits a number has, with which one they begin and with which one they end. Without zeros
at its end a coefficient has no more digits than with them, and the same number is denoted.
-/
namespace ScriptFront

namespace Decimal

theorem ofDigits_append_list (ds es : List Char) :
    ofDigits (ds ++ es) = ofDigits ds * 10 ^ es.length + ofDigits es := by
  induction es using List.reverseRecOn with
  | nil => simp [ofDigits]
  | append_singleton es e ih =>
    rw [← List.append_assoc, ofDigits_append, ih, ofDigits_append, List.length_append,
      List.length_singleton, Nat.pow_succ]
    ring

theorem ofDigits_zeros (n : Nat) : ofDigits (List.replicate n '0') = 0 := by
  induction n with
  | zero => rfl
  | succ n ih => rw [List.replicate_succ', ofDigits_append, ih]; rfl

theorem digit_digits (n : Nat) : ∀ d ∈ digits n, Digit d := by
  have digit : ∀ d < 10, Digit (digitChar d) := by decide
  induction n using Nat.strongRecOn with
  | _ n ih =>
    by_cases h : n < 10
    · simpa [h] using digit n h
    · rw [digits_of_ge h]
      intro d hd
      rcases List.mem_append.1 hd with hd | hd
      · exact ih (n / 10) (by omega) d hd
      · rw [List.mem_singleton.1 hd]
        exact digit _ (Nat.mod_lt _ (by decide))

theorem digits_ne_nil (n : Nat) : digits n ≠ [] := by
  by_cases h : n < 10
  · simp [h]
  · simp [digits_of_ge h]

theorem digit_zeros (n : Nat) : ∀ d ∈ List.replicate n '0', Digit d := by
  intro d hd
  rw [List.eq_of_mem_replicate hd]
  decide

theorem log10_eq_log (n : Nat) : log10 n = Nat.log 10 n := by
  fun_induction log10 n with
  | case1 n small => rw [Nat.log_of_lt small]
  | case2 n large ih => rw [ih, Nat.log_of_one_lt_of_le (by decide) (Nat.not_lt.1 large)]

theorem length_digits (n : Nat) : (digits n).length = log10 n + 1 := by
  fun_induction log10 n with
  | case1 n small => rw [digits_of_lt small, List.length_singleton]
  | case2 n large ih => rw [digits_of_ge large, List.length_append, ih, List.length_singleton]

theorem lt_pow_length_digits (n : Nat) : n < 10 ^ (digits n).length := by
  rw [length_digits, log10_eq_log]
  exact Nat.lt_pow_succ_log_self (by decide) n

theorem pow_log10_le {n : Nat} (some : n ≠ 0) : 10 ^ log10 n ≤ n := by
  rw [log10_eq_log]
  exact Nat.pow_log_le_self 10 some

theorem length_digits_le {n k : Nat} (h : n < 10 ^ (k + 1)) : (digits n).length ≤ k + 1 := by
  rw [length_digits, log10_eq_log]
  have := Nat.log_lt_of_lt_pow' (Nat.succ_ne_zero k) h
  omega

theorem head?_digits_append (n : Nat) (ds : List Char) :
    (digits n ++ ds).head? = (digits n).head? := by
  rw [List.head?_append, Option.or_of_isSome (List.isSome_head?.2 (digits_ne_nil n))]

theorem head?_digits_ne {n : Nat} (some : n ≠ 0) : (digits n).head? ≠ .some '0' := by
  have digit : ∀ d < 10, d ≠ 0 → digitChar d ≠ '0' := by decide
  fun_induction log10 n with
  | case1 n small =>
    rw [digits_of_lt small, List.head?_singleton, Ne, Option.some.injEq]
    exact digit n small some
  | case2 n large ih =>
    rw [digits_of_ge large, head?_digits_append]
    exact ih (by omega)

theorem getLast?_digits (n : Nat) : (digits n).getLast? = some (digitChar (n % 10)) := by
  by_cases small : n < 10
  · rw [digits_of_lt small, Nat.mod_eq_of_lt small, List.getLast?_singleton]
  · rw [digits_of_ge small, List.getLast?_concat]

theorem digitValue_lt {x : Char} (h : Digit x) : digitValue x < 10 := by
  have high : x.toNat ≤ 57 := h.2
  unfold digitValue
  omega

theorem ofDigits_lt {ds : List Char} (h : ∀ d ∈ ds, Digit d) : ofDigits ds < 10 ^ ds.length := by
  induction ds using List.reverseRecOn with
  | nil => simp [ofDigits]
  | append_singleton ds d ih =>
    have before := ih fun d' mem => h d' (List.mem_append_left _ mem)
    have last := digitValue_lt (h d (by simp))
    rw [ofDigits_append, List.length_append, List.length_singleton, Nat.pow_succ]
    omega

/-- `Expansion ds n`: the digits of the number `n`, without superfluous zeros in front. -/
structure Expansion (ds : List Char) (n : Nat) : Prop where
  numeral : Numeral ds
  value : ofDigits ds = n
  leading : ds.head? = some '0' → ds = ['0']

theorem expansion_digits (n : Nat) : Expansion (digits n) n where
  numeral := ⟨digits_ne_nil n, digit_digits n⟩
  value := ofDigits_digits n
  leading zero := by
    have none : n = 0 := by
      by_contra some
      exact head?_digits_ne some zero
    rw [none]
    exact digits_of_lt (by decide)

variable {coefficient : Nat} {exponent : Int}

theorem trim_mod_ten (some : coefficient ≠ 0) :
    (trim coefficient exponent).coefficient % 10 ≠ 0 := by
  fun_induction trim coefficient exponent with
  | case1 => exact absurd rfl some
  | case2 coefficient exponent _ zero ih => exact ih (by omega)
  | case3 coefficient exponent _ last => exact last

theorem trim_le (coefficient : Nat) (exponent : Int) :
    (trim coefficient exponent).coefficient ≤ coefficient := by
  fun_induction trim coefficient exponent with
  | case1 => exact Nat.le_refl 0
  | case2 coefficient exponent _ zero ih => exact ih.trans (Nat.div_le_self _ _)
  | case3 => exact Nat.le_refl _

/-- A power of ten is cut down to one digit, so a coefficient up to it has no more digits than those
below it. -/
theorem length_digits_trim {k : Nat} (h : coefficient ≤ 10 ^ (k + 1)) :
    (digits (trim coefficient exponent).coefficient).length ≤ k + 1 := by
  apply length_digits_le
  rcases Nat.lt_or_eq_of_le h with below | power
  · exact (trim_le _ _).trans_lt below
  · have tenth : coefficient / 10 = 10 ^ k := by
      rw [power, Nat.pow_succ, Nat.mul_div_cancel _ (by decide)]
    have some : coefficient ≠ 0 := by rw [power]; exact (Nat.pow_pos (by decide)).ne'
    have zero : coefficient % 10 = 0 := by rw [power, Nat.pow_succ, Nat.mul_mod_left]
    rw [trim, if_neg some, if_pos zero, tenth]
    exact (trim_le _ _).trans_lt (Nat.pow_lt_pow_right (by decide) (Nat.lt_succ_self k))

def value (d : Decimal) : ℚ := d.coefficient * 10 ^ d.exponent

theorem value_trim (coefficient : Nat) (exponent : Int) :
    (trim coefficient exponent).value = coefficient * 10 ^ exponent := by
  fun_induction trim coefficient exponent with
  | case1 => simp [value]
  | case2 coefficient exponent _ zero ih =>
    have whole : coefficient / 10 * 10 = coefficient :=
      Nat.div_mul_cancel (Nat.dvd_of_mod_eq_zero zero)
    rw [ih, zpow_add_one₀ (by norm_num)]
    nth_rewrite 2 [← whole]
    push_cast
    ring
  | case3 => rfl

end Decimal
end ScriptFront
