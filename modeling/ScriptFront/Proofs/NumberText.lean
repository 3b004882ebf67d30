import Mathlib.Data.Nat.Cast.Field
import Mathlib.Data.Rat.Floor
import ScriptFront.Binary64.Text
import ScriptFront.Proofs.ShortestDecimal

/-!
# The text of a number

The canonical form of a finite double is one numeral with a point, and the numeral is read as that
double again. A whole number is written exactly, with one zero behind the point; any other one as
its shortest decimal.
-/
namespace ScriptFront

namespace Decimal

/-- The digits of a number with zeros in front, which reach just before the point. -/
def padded (n places : Nat) : List Char :=
  List.replicate (places + 1 - (digits n).length) '0' ++ digits n

section Padded

variable {n places : Nat}

theorem lt_length_padded (n places : Nat) : places < (padded n places).length := by
  rw [padded, List.length_append, List.length_replicate]
  omega

theorem digit_padded : ∀ d ∈ padded n places, Digit d := by
  intro d hd
  rcases List.mem_append.1 hd with hd | hd
  · exact digit_zeros _ d hd
  · exact digit_digits n d hd

theorem ofDigits_padded : ofDigits (padded n places) = n := by
  rw [padded, ofDigits_append_list, ofDigits_zeros, ofDigits_digits, Nat.zero_mul, Nat.zero_add]

/-- A zero in front is the only digit before the point. -/
theorem length_padded (some : 0 < places) (zero : (padded n places).head? = .some '0') :
    (padded n places).length = places + 1 := by
  rcases Nat.lt_or_ge places (digits n).length with many | few
  · have alone : padded n places = digits n := by
      rw [padded, Nat.sub_eq_zero_of_le many, List.replicate_zero, List.nil_append]
    have none : n = 0 := by
      by_contra nonzero
      rw [alone] at zero
      exact head?_digits_ne nonzero zero
    rw [none, digits_of_lt (by decide), List.length_singleton] at many
    omega
  · rw [padded, List.length_append, List.length_replicate]
    omega

theorem getLast?_padded : (padded n places).getLast? = some (digitChar (n % 10)) := by
  rw [padded, List.getLast?_append, getLast?_digits, Option.some_or]

end Padded

/-- With a point before the last of its digits a number is a numeral of that many places. It begins
with no superfluous zero, and ends in a zero only if the number does. -/
theorem exists_numeral_pointed (n : Nat) {places : Nat} (some : 0 < places) :
    ∃ whole fraction, pointed (digits n) places = whole ++ '.' :: fraction ∧
      Expansion whole (ofDigits whole) ∧ Numeral fraction ∧ fraction.length = places ∧
      ofDigits (whole ++ fraction) = n ∧ (n % 10 ≠ 0 → fraction.getLast? ≠ .some '0') := by
  obtain ⟨whole, fraction, form, split, behind⟩ : ∃ whole fraction,
      pointed (digits n) places = whole ++ '.' :: fraction ∧
        whole ++ fraction = padded n places ∧ fraction.length = places := by
    have long := lt_length_padded n places
    refine ⟨_, _, rfl, List.take_append_drop _ _, ?_⟩
    rw [List.length_drop]
    exact Nat.sub_sub_self long.le
  have digit : ∀ d ∈ whole ++ fraction, Digit d := by
    rw [split]
    exact digit_padded
  have length := congrArg List.length split
  have long := lt_length_padded n places
  rw [List.length_append] at length
  have whole_ne : whole ≠ [] := List.ne_nil_of_length_pos (by omega)
  have fraction_ne : fraction ≠ [] := List.ne_nil_of_length_pos (by omega)
  refine ⟨whole, fraction, form, ⟨⟨whole_ne, fun d mem => digit d (List.mem_append_left _ mem)⟩,
    rfl, ?_⟩, ⟨fraction_ne, fun d mem => digit d (List.mem_append_right _ mem)⟩, behind, ?_, ?_⟩
  · intro zero
    obtain ⟨x, more, rfl⟩ := List.exists_cons_of_ne_nil whole_ne
    cases zero
    have first : (padded n places).head? = .some '0' := by rw [← split]; rfl
    have none : more = [] := by
      apply List.eq_nil_of_length_eq_zero
      rw [length_padded some first, List.length_cons] at length
      omega
    rw [none]
  · rw [split, ofDigits_padded]
  · intro last zero
    have digitChar_ne : ∀ d < 10, d ≠ 0 → digitChar d ≠ '0' := by decide
    have same : (padded n places).getLast? = fraction.getLast? := by
      rw [← split, List.getLast?_append, zero, Option.some_or]
    rw [getLast?_padded, zero, Option.some_inj] at same
    exact digitChar_ne _ (Nat.mod_lt _ (by decide)) last same

end Decimal

namespace Binary64

variable {rank : Nat}

theorem isWhole_iff : isWhole rank = true ↔ unitsPerOne ∣ magnitude rank := by
  rw [isWhole, beq_iff_eq, Nat.dvd_iff_mod_eq_zero]

theorem not_covers_whole (h : isWhole rank = false) (n : Nat) : ¬Covers rank n := by
  intro covers
  rw [isWhole_iff.2 covers.unitsPerOne_dvd] at h
  cases h

/-- So all that it covers has the same whole part. -/
theorem Covers.floor_eq {q : ℚ} {n : Nat} (covers : Covers rank q) (h : isWhole rank = false)
    (low : n ≤ q) (high : q < n + 1) : ⌊value rank⌋₊ = n := by
  rw [Nat.floor_eq_iff (value_nonneg rank)]
  constructor
  · by_contra below
    exact not_covers_whole h n ((Covers.self rank).between covers (not_le.1 below).le low)
  · by_contra above
    refine not_covers_whole h (n + 1) (covers.between (Covers.self rank) ?_ ?_)
    · exact_mod_cast high.le
    · exact_mod_cast not_lt.1 above

/-- The decimal that a numeral with a point denotes. -/
def numeral (whole fraction : List Char) : Decimal :=
  ⟨Decimal.ofDigits (whole ++ fraction), -fraction.length⟩

theorem value_numeral (whole fraction : List Char) : (numeral whole fraction).value =
    Decimal.ofDigits (whole ++ fraction) / 10 ^ fraction.length := by
  rw [Decimal.value, numeral, zpow_neg, zpow_natCast, ← div_eq_mul_inv]

/-- The number of a numeral lies less than one above its whole part. -/
theorem numeral_bounds (whole : List Char) {fraction : List Char} (places : Numeral fraction) :
    Decimal.ofDigits whole ≤ (numeral whole fraction).value ∧
      (numeral whole fraction).value < Decimal.ofDigits whole + 1 := by
  have pos : (0 : ℚ) < 10 ^ fraction.length := by positivity
  have small : (Decimal.ofDigits fraction : ℚ) < 10 ^ fraction.length := by
    exact_mod_cast Decimal.ofDigits_lt places.digit
  have nonneg : (0 : ℚ) ≤ Decimal.ofDigits fraction := Nat.cast_nonneg _
  rw [value_numeral, Decimal.ofDigits_append_list, le_div_iff₀ pos, div_lt_iff₀ pos]
  push_cast
  constructor <;> linarith

theorem ofNumeral_eq_iff {whole fraction : List Char} {rank : Fin rankBound} :
    ofNumeral whole fraction = finite false rank ↔
      Covers rank (numeral whole fraction).value := by
  have pos : 0 < Nat.pow 10 fraction.length := Nat.pow_pos (by decide)
  rw [value_numeral, ofNumeral, ofRatio, ← Nat.cast_ofNat (R := ℚ) (n := 10), ← Nat.cast_pow,
    ← Nat.pow_eq, ← nearestRank_eq_iff pos, ofRank]
  constructor
  · intro same
    split_ifs at same
    cases same
    rfl
  · intro same
    simp only [same, rank.isLt, dif_pos]

theorem value_of_isWhole (h : isWhole rank = true) :
    value rank = (magnitude rank / unitsPerOne : Nat) := by
  have pos : (unitsPerOne : ℚ) ≠ 0 := Nat.cast_ne_zero.2 unitsPerOne_pos.ne'
  rw [value, Nat.cast_div (isWhole_iff.1 h) pos]

/-- A whole double is written exactly, with a zero behind the point. -/
theorem exists_positional_whole (h : isWhole rank = true) : ∃ whole,
    (canonicalDecimal rank).positional = whole ++ '.' :: ['0'] ∧
      Decimal.Expansion whole ⌊value rank⌋₊ ∧ (numeral whole ['0']).value = value rank := by
  have number := value_of_isWhole h
  have expansion := Decimal.expansion_digits (magnitude rank / unitsPerOne)
  refine ⟨Decimal.digits (magnitude rank / unitsPerOne), ?_, ?_, ?_⟩
  · rw [canonicalDecimal, if_pos h]
    simp [Decimal.positional]
  · rwa [number, Nat.floor_natCast]
  · rw [value_numeral, Decimal.ofDigits_append, expansion.value, number]
    simp [show Decimal.digitValue '0' = 0 from rfl]

/-- A double that is not whole is written as its shortest decimal, with the same whole part. -/
theorem exists_positional_shortest (h : isWhole rank = false) : ∃ whole fraction,
    (canonicalDecimal rank).positional = whole ++ '.' :: fraction ∧
      Decimal.Expansion whole ⌊value rank⌋₊ ∧ Numeral fraction ∧ fraction.getLast? ≠ some '0' ∧
      Shortest rank (numeral whole fraction) := by
  have nonzero : rank ≠ 0 := by
    rintro rfl
    have zero := Covers.self 0
    rw [value_zero, ← Nat.cast_zero] at zero
    exact not_covers_whole h 0 zero
  have short := shortest_spec nonzero
  rw [canonicalDecimal, h, if_neg Bool.false_ne_true]
  generalize shortest rank = d at short
  obtain ⟨coefficient, zeros | n⟩ := d
  · -- Without a fraction it would be whole.
    have covers := short.covers
    have number : Decimal.value ⟨coefficient, .ofNat zeros⟩ = (coefficient * 10 ^ zeros : Nat) := by
      rw [Decimal.value, Int.ofNat_eq_natCast, zpow_natCast, Nat.cast_mul, Nat.cast_pow,
        Nat.cast_ofNat]
    rw [number] at covers
    exact absurd covers (not_covers_whole h _)
  · obtain ⟨whole, fraction, form, expansion, places, length, digits, last⟩ :=
      Decimal.exists_numeral_pointed coefficient (Nat.succ_pos n)
    have same : (⟨coefficient, .negSucc n⟩ : Decimal) = numeral whole fraction := by
      rw [numeral, digits, length]
      rfl
    rw [same] at short
    obtain ⟨low, high⟩ := numeral_bounds whole places
    refine ⟨whole, fraction, form, ?_, places, last ?_, short⟩
    · rw [short.covers.floor_eq h low high]
      exact expansion
    · have ends := short.ends
      rwa [numeral, digits] at ends

/-- A double without a sign is written as a numeral with a point, whose number it covers. -/
theorem exists_numeral_canonical (rank : Fin rankBound) : ∃ whole fraction,
    (canonical (finite false rank)).toList = whole ++ '.' :: fraction ∧ Numeral whole ∧
      Numeral fraction ∧ Covers rank (numeral whole fraction).value := by
  cases h : isWhole rank with
  | true =>
    obtain ⟨whole, form, expansion, same⟩ := exists_positional_whole h
    refine ⟨whole, ['0'], by simp [canonical, signed, form], expansion.numeral,
      ⟨by simp, Decimal.digit_zeros 1⟩, ?_⟩
    rw [same]
    exact .self rank
  | false =>
    obtain ⟨whole, fraction, form, expansion, places, -, short⟩ := exists_positional_shortest h
    exact ⟨whole, fraction, by simp [canonical, signed, form], expansion.numeral, places,
      short.covers⟩

/-- The canonical form of a double without a sign is a lexeme, and its literal is that double. -/
theorem lexeme_canonical (rank : Fin rankBound) :
    Lexeme (canonical (finite false rank)).toList .number (.number (finite false rank)) := by
  obtain ⟨whole, fraction, text, digits, places, covers⟩ := exists_numeral_canonical rank
  rw [text, ← ofNumeral_eq_iff.2 covers]
  exact .fraction digits places

end Binary64
end ScriptFront
