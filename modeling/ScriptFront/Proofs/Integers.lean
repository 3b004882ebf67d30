import ScriptFront.Proofs.IntegerValue
import ScriptFront.Proofs.NumberToken

/-!
# Integers as numbers

An integer of any size becomes the double that its digits are scanned as: both are the integer
rounded to nearest. Only from half a spacing above the largest double on they differ, for there the
digits are scanned as infinity and the integer is refused. A negative integer becomes the same
double with the other sign.
-/
namespace ScriptFront

namespace Decimal

variable (n zeros : ℕ)

theorem numeral_zeros_digits : Numeral (List.replicate zeros '0' ++ digits n) where
  ne_nil := List.append_ne_nil_of_right_ne_nil _ (digits_ne_nil n)
  digit d mem := by
    rcases List.mem_append.1 mem with mem | mem
    · exact digit_zeros zeros d mem
    · exact digit_digits n d mem

theorem ofDigits_zeros_digits : ofDigits (List.replicate zeros '0' ++ digits n) = n := by
  rw [ofDigits_append_list, ofDigits_zeros, ofDigits_digits, Nat.zero_mul, Nat.zero_add]

end Decimal

namespace Binary64

theorem unsignedRounded_ofRatio_one (n : ℕ) : UnsignedRounded n (ofRatio n 1) := by
  have covers := covers_nearestRank Nat.one_pos n
  rw [Nat.cast_one, div_one] at covers
  exact covers.unsignedRounded (Nat.cast_nonneg n)

/-- An integer is infinite as a double from half a spacing above the largest double on. -/
theorem ofRatio_one_eq_infinity_iff {n : ℕ} :
    ofRatio n 1 = infinity false ↔ 2 ^ 1024 - 2 ^ 970 ≤ n := by
  have ordered : 2 ^ 970 ≤ 2 ^ 1024 := pow_le_pow_right₀ one_le_two (by decide)
  rw [(unsignedRounded_ofRatio_one n).infinite_iff, ← Nat.cast_le (α := ℚ), Nat.cast_sub ordered,
    Nat.cast_pow, Nat.cast_pow, Nat.cast_ofNat]

/-- A numeral without a point is rounded as the integer that it denotes, whatever zeros it begins
with. -/
theorem ofNumeral_zeros_digits (n zeros : ℕ) :
    ofNumeral (List.replicate zeros '0' ++ Decimal.digits n) [] = ofRatio n 1 := by
  rw [ofNumeral, List.append_nil, Decimal.ofDigits_zeros_digits]
  rfl

theorem ofRank_true (rank : ℕ) : ofRank true rank = negate (ofRank false rank) := by
  unfold ofRank
  split <;> rfl

/-- With the other sign a double that has none is written with a minus in front. -/
theorem UnsignedRounded.canonical_negate {q : ℚ} {x : Binary64} (h : UnsignedRounded q x) :
    canonical (negate x) = "-" ++ canonical x := by
  rcases h.unsigned with rfl | ⟨rank, rfl⟩
  · rfl
  · rw [← String.toList_inj]
    simp [canonical, negate, signed]

end Binary64

namespace Literal

open Binary64

/-- An integer without a sign is rounded as its digits are, unless that makes it infinite. -/
theorem toNumber_natCast (n : ℕ) : (int n).toNumber =
    if 2 ^ 1024 - 2 ^ 970 ≤ n then .error .tooLarge else .ok (ofRatio n 1) := by
  have noSign : decide ((n : ℤ) < 0) = false := decide_eq_false (Int.natCast_nonneg n).not_gt
  have infinite := ofRatio_one_eq_infinity_iff (n := n)
  have unsigned := (unsignedRounded_ofRatio_one n).unsigned
  rw [toNumber_int, ofInt?_eq, noSign, Int.natAbs_natCast, ← ofRatio]
  generalize ofRatio n 1 = x at infinite unsigned ⊢
  rcases unsigned with rfl | ⟨rank, rfl⟩
  · rw [if_pos (infinite.1 rfl), finite?, Option.elim_none]
  · rw [if_neg (mt infinite.2 (by simp)), finite?, Option.elim_some]
    intro _ same
    cases same

theorem toNumber_neg {n : ℕ} (pos : 0 < n) :
    (int (-n)).toNumber = (int n).toNumber.map negate := by
  have sign : decide ((-n : ℤ) < 0) = true := decide_eq_true (by omega)
  have noSign : decide ((n : ℤ) < 0) = false := decide_eq_false (Int.natCast_nonneg n).not_gt
  rw [toNumber_int, toNumber_int, ofInt?_eq, ofInt?_eq, sign, noSign, Int.natAbs_neg, ofRank_true]
  cases ofRank false (nearestRank (n : ℤ).natAbs 1) <;> rfl

end Literal

open Binary64 in
/-- The digits of an integer, with any zeros in front, are scanned as one number: the integer rounded
to nearest. As a number itself the integer is the same double, with the same canonical form, but
where the digits are scanned as infinity it is refused; that is from half a spacing above the largest
double on. A negative integer fares as its absolute value does, and has the other sign. -/
theorem scan_digits_integer (n zeros : ℕ) (filename : String) :
    let text := String.ofList (List.replicate zeros '0' ++ Decimal.digits n)
    ∃ x, let t : Token := ⟨.number, text, .number x, 1⟩
      scan (.text text) filename = ⟨[t, .endOn 1], []⟩ ∧ UnsignedRounded n x ∧
      (x = infinity false ↔ 2 ^ 1024 - 2 ^ 970 ≤ n) ∧
      (Literal.int n).toNumber =
        (if 2 ^ 1024 - 2 ^ 970 ≤ n then .error .tooLarge else .ok x) ∧
      (Literal.int n).toNumber.map canonical =
        (if 2 ^ 1024 - 2 ^ 970 ≤ n then .error .tooLarge else t.literalText) ∧
      (0 < n →
        (Literal.int (-n)).toNumber = (Literal.int n).toNumber.map negate ∧
        (Literal.int (-n)).toNumber.map canonical =
          ((Literal.int n).toNumber.map canonical).map ("-" ++ ·)) := by
  intro text
  have rounded := unsignedRounded_ofRatio_one n
  have number := Literal.toNumber_natCast n
  refine ⟨ofRatio n 1, ?_, rounded, ofRatio_one_eq_infinity_iff, number, ?_, fun pos =>
    ⟨Literal.toNumber_neg pos, ?_⟩⟩
  · have matched := Lexeme.whole (Decimal.numeral_zeros_digits n zeros)
    rw [ofNumeral_zeros_digits] at matched
    have munch : Munch (_ ++ []) _ := .of_not_goesOn matched (not_goesOn_of_apart (by simp))
    have alone := ScansTo.lexeme matched (by decide) munch
    rw [← String.toList_ofList (l := List.replicate zeros '0' ++ Decimal.digits n)] at alone
    have scanned := alone.scan_eq filename
    rwa [String.ofList_toList] at scanned
  · rw [number]
    split <;> rfl
  · rw [Literal.toNumber_neg pos, number]
    split
    · rfl
    · exact congrArg Except.ok rounded.canonical_negate

-- Half way between 2⁵³ and the double behind it, with two zeros in front.
theorem scan_digits_integer_halfway :
    String.ofList (List.replicate 2 '0' ++ Decimal.digits 9007199254740993) =
      "009007199254740993" ∧
    0 < 9007199254740993 ∧
    ∃ x, scan (.text "009007199254740993") "" =
        ⟨[⟨.number, "009007199254740993", .number x, 1⟩, .endOn 1], []⟩ ∧
      (Literal.int 9007199254740993).toNumber = .ok x ∧
      (Literal.int (-9007199254740993)).toNumber = .ok x.negate := by
  have text : String.ofList (List.replicate 2 '0' ++ Decimal.digits 9007199254740993) =
      "009007199254740993" := by
    decide +kernel
  obtain ⟨x, scanned, -, -, number, -, negative⟩ := scan_digits_integer 9007199254740993 2 ""
  have pos : 0 < 9007199254740993 := by decide
  have small : ¬ 2 ^ 1024 - 2 ^ 970 ≤ 9007199254740993 := by decide +kernel
  rw [text] at scanned
  rw [if_neg small] at number
  rw [Nat.cast_ofNat] at number negative
  refine ⟨text, pos, x, scanned, number, ?_⟩
  rw [(negative pos).1, number]
  rfl

end ScriptFront
