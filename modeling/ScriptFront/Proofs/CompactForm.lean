import ScriptFront.Proofs.NumberText
import ScriptFront.Proofs.SignedForm
import ScriptFront.Proofs.Stretch

/-!
# Compact form

The compact form of a double tells that double. A letter tells a decimal in scientific form from
one in positional form. The one form tells the digits and the exponent, and the other at least the
number; and one number is not rounded to two doubles.
-/
namespace ScriptFront

namespace Decimal

/-- Digits with a point behind the first, where others follow. -/
def mantissa : List Char → List Char
  | first :: second :: more => first :: '.' :: second :: more
  | single => single

def signedExponent (e : Int) : List Char := (if e < 0 then '-' else '+') :: twoDigits e.natAbs

theorem scientific_eq (d : Decimal) : d.scientific =
    mantissa (digits d.coefficient) ++ 'e' :: signedExponent (d.point - 1) := by
  unfold scientific mantissa signedExponent
  rfl

theorem mem_mantissa {ds : List Char} {x : Char} (mem : x ∈ mantissa ds) : x ∈ ds ∨ x = '.' := by
  unfold mantissa at mem
  split at mem
  · simp only [List.mem_cons] at mem ⊢
    tauto
  · exact .inl mem

/-- The digits are what is left of the mantissa without the point. -/
theorem filter_mantissa {ds : List Char} (digit : ∀ d ∈ ds, Digit d) :
    (mantissa ds).filter isDigit = ds := by
  have all : ds.filter isDigit = ds :=
    List.filter_eq_self.2 fun d mem => (isDigit_iff d).2 (digit d mem)
  have point : isDigit '.' = false := by decide
  unfold mantissa
  split
  · rw [List.filter_cons] at all ⊢
    rw [List.filter_cons_of_neg (by simp [point])]
    exact all
  · exact all

theorem digit_twoDigits (n : Nat) : ∀ d ∈ twoDigits n, Digit d := by
  unfold twoDigits
  split
  · exact List.forall_mem_cons.2 ⟨by decide, digit_digits n⟩
  · exact digit_digits n

theorem ofDigits_twoDigits (n : Nat) : ofDigits (twoDigits n) = n := by
  unfold twoDigits
  split
  · rw [← List.singleton_append, ofDigits_append_list, ofDigits_digits]
    simp [ofDigits, digitValue]
  · exact ofDigits_digits n

theorem signedExponent_injective {e e' : Int} (same : signedExponent e = signedExponent e') :
    e = e' := by
  obtain ⟨signs, behind⟩ := List.cons.inj same
  have sizes := congrArg ofDigits behind
  rw [ofDigits_twoDigits, ofDigits_twoDigits] at sizes
  have agree : e < 0 ↔ e' < 0 := by
    by_cases negative : e < 0 <;> by_cases negative' : e' < 0 <;>
      simp [negative, negative'] at signs ⊢
  omega

theorem scientific_injective {d d' : Decimal} (same : d.scientific = d'.scientific) : d = d' := by
  have noLetter (n : Nat) : 'e' ∉ mantissa (digits n) := by
    intro mem
    rcases mem_mantissa mem with digit | point
    · exact absurd (digit_digits n _ digit) (by decide)
    · cases point
  rw [scientific_eq, scientific_eq] at same
  obtain ⟨mantissas, exponents⟩ := append_cons_inj (noLetter _) (noLetter _) same
  have numerals := congrArg (List.filter isDigit) mantissas
  rw [filter_mantissa (digit_digits _), filter_mantissa (digit_digits _)] at numerals
  have coefficients := congrArg ofDigits numerals
  rw [ofDigits_digits, ofDigits_digits] at coefficients
  have points := signedExponent_injective exponents
  unfold point at points
  rw [numerals] at points
  obtain ⟨coefficient, exponent⟩ := d
  obtain ⟨coefficient', exponent'⟩ := d'
  obtain rfl : coefficient = coefficient' := coefficients
  dsimp only at points
  obtain rfl : exponent = exponent' := by omega
  rfl

/-- The positional form of a decimal is a numeral of its number. -/
theorem exists_numeral_positional (d : Decimal) : ∃ whole fraction,
    d.positional = whole ++ '.' :: fraction ∧ Numeral whole ∧ Numeral fraction ∧
      d.value = (Binary64.numeral whole fraction).value := by
  obtain ⟨coefficient, zeros | n⟩ := d
  · refine ⟨digits coefficient ++ List.replicate zeros '0', ['0'], rfl, ⟨?_, ?_⟩,
      ⟨by simp, digit_zeros 1⟩, ?_⟩
    · exact List.append_ne_nil_of_left_ne_nil (digits_ne_nil _) _
    · intro x mem
      rcases List.mem_append.1 mem with mem | mem
      · exact digit_digits _ x mem
      · exact digit_zeros _ x mem
    · rw [Binary64.value_numeral, ofDigits_append, ofDigits_append_list, ofDigits_digits,
        ofDigits_zeros, List.length_replicate, show digitValue '0' = 0 from rfl, value,
        Int.ofNat_eq_natCast, zpow_natCast]
      push_cast
      simp
  · obtain ⟨whole, fraction, form, expansion, places, length, digits, -⟩ :=
      exists_numeral_pointed coefficient (Nat.succ_pos n)
    refine ⟨whole, fraction, form, expansion.numeral, places, ?_⟩
    rw [Binary64.numeral, digits, length]
    rfl

theorem value_eq_of_positional {d d' : Decimal} (same : d.positional = d'.positional) :
    d.value = d'.value := by
  obtain ⟨whole, fraction, form, digits, -, number⟩ := d.exists_numeral_positional
  obtain ⟨whole', fraction', form', digits', -, number'⟩ := d'.exists_numeral_positional
  rw [form, form'] at same
  obtain ⟨rfl, rfl⟩ := append_cons_inj digits.point_not_mem digits'.point_not_mem same
  rw [number, number']

/-- A decimal in the form that its size asks for. -/
def written (d : Decimal) : List Char :=
  if Binary64.writtenPositionally d then d.positional else d.scientific

theorem digit_or_point {d : Decimal} : ∀ x ∈ d.positional, Digit x ∨ x = '.' := by
  obtain ⟨whole, fraction, form, digits, places, -⟩ := d.exists_numeral_positional
  rw [form]
  intro x mem
  rcases List.mem_append.1 mem with mem | mem
  · exact .inl (digits.digit x mem)
  · rcases List.mem_cons.1 mem with rfl | mem
    · exact .inr rfl
    · exact .inl (places.digit x mem)

theorem letter_not_mem_positional (d : Decimal) : 'e' ∉ d.positional := by
  intro mem
  rcases digit_or_point _ mem with digit | point
  · exact absurd digit (by decide)
  · cases point

theorem letter_mem_scientific (d : Decimal) : 'e' ∈ d.scientific := by
  rw [scientific_eq]
  simp

theorem value_eq_of_written {d d' : Decimal} (same : d.written = d'.written) :
    d.value = d'.value := by
  unfold written at same
  split_ifs at same
  · exact value_eq_of_positional same
  · exact absurd (same ▸ d'.letter_mem_scientific) d.letter_not_mem_positional
  · exact absurd (same ▸ d.letter_mem_scientific) d'.letter_not_mem_positional
  · rw [scientific_injective same]

theorem exists_written_digit (d : Decimal) : ∃ x more, d.written = x :: more ∧ Digit x := by
  unfold written
  split_ifs
  · obtain ⟨whole, fraction, form, digits, -⟩ := d.exists_numeral_positional
    obtain ⟨x, more, rfl⟩ := List.exists_cons_of_ne_nil digits.ne_nil
    exact ⟨x, _, form, digits.digit x (by simp)⟩
  · rw [scientific_eq]
    obtain ⟨x, more, split⟩ := List.exists_cons_of_ne_nil (digits_ne_nil d.coefficient)
    have digit := digit_digits d.coefficient x (by simp [split])
    rw [split]
    cases more <;> exact ⟨x, _, rfl, digit⟩

theorem mem_written {d : Decimal} {x : Char} (mem : x ∈ d.written) :
    Digit x ∨ x ∈ ['.', 'e', '+', '-'] := by
  unfold written at mem
  split_ifs at mem
  · rcases digit_or_point x mem with digit | rfl
    · exact .inl digit
    · exact .inr (by decide)
  · rw [scientific_eq, signedExponent] at mem
    rcases List.mem_append.1 mem with mem | mem
    · rcases mem_mantissa mem with digit | rfl
      · exact .inl (digit_digits _ x digit)
      · exact .inr (by decide)
    · rcases List.mem_cons.1 mem with rfl | mem
      · exact .inr (by decide)
      rcases List.mem_cons.1 mem with sign | mem
      · right
        rw [sign]
        split <;> decide
      · exact .inl (digit_twoDigits _ x mem)

theorem exists_mem_written (d : Decimal) : ∃ x ∈ d.written, x = '.' ∨ x = 'e' := by
  unfold written
  split_ifs
  · obtain ⟨whole, fraction, form, -⟩ := d.exists_numeral_positional
    exact ⟨'.', by simp [form], .inl rfl⟩
  · exact ⟨'e', d.letter_mem_scientific, .inr rfl⟩

end Decimal

namespace Binary64

theorem toList_compact (rank : Fin rankBound) :
    (compact (finite false rank)).toList = (shortest rank).written := by
  simp [compact, signed, Decimal.written]

/-- The compact form has a sign, and tells the double by the number of its shortest decimal. -/
theorem signedForm_compact : SignedForm compact 'i' 'n' where
  finite_injective {rank rank'} same := by
    have forms := congrArg String.toList same
    rw [toList_compact, toList_compact] at forms
    have covers := covers_shortest rank
    rw [Decimal.value_eq_of_written forms] at covers
    exact Fin.ext (covers.unique (covers_shortest rank'))
  finite_first rank := by
    rw [toList_compact]
    exact Decimal.exists_written_digit _
  finite_sign rank := by simp [compact, signed]
  infinite_first := ⟨_, rfl⟩
  infinite_sign := rfl
  nan_first := ⟨_, rfl⟩
  letters := by decide

end Binary64
end ScriptFront
