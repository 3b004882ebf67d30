import Mathlib.Algebra.Order.Field.Basic
import Mathlib.Algebra.Order.Ring.Rat
import Mathlib.Algebra.Field.Rat
import Mathlib.Tactic.FieldSimp
import Mathlib.Tactic.Linarith
import Mathlib.Tactic.Ring
import ScriptFront.Binary64.Rounding

/-!
# Laws of rounding

Every double covers the numbers around it, up to half way to the doubles next to it, and half way
too if its rank is even. The doubles cover the nonnegative numbers without a gap and without an
overlap, and a fraction is rounded to the double that covers it. So rounding looks at the value of a
fraction only, not at how it is written, and gives every double back exactly.
-/
namespace ScriptFront.Binary64

theorem unitsPerOne_pos : 0 < unitsPerOne := by decide +kernel

/-- Ranks that share a spacing are counted by their significands. The last one is the first rank of
the next spacing. -/
theorem magnitude_spaced {spacing significand : Nat}
    (low : spacing = 0 ∨ fractionCount ≤ significand) (high : significand ≤ 2 * fractionCount) :
    magnitude (spacing * fractionCount + significand) = significand * 2 ^ spacing := by
  have pos : 0 < fractionCount := by decide
  unfold magnitude
  simp only [Nat.pow_eq]
  by_cases small : significand < fractionCount
  · obtain rfl : spacing = 0 := low.resolve_right (by omega)
    simp [small]
  obtain ⟨fraction, rfl⟩ := Nat.exists_eq_add_of_le (Nat.not_lt.1 small)
  have large : ¬spacing * fractionCount + (fractionCount + fraction) < fractionCount := by omega
  have total : spacing * fractionCount + (fractionCount + fraction) =
      fraction + fractionCount * (spacing + 1) := by ring
  rw [if_neg large, total, Nat.add_mul_mod_self_left, Nat.add_mul_div_left _ _ pos]
  by_cases carry : fraction < fractionCount
  · rw [Nat.mod_eq_of_lt carry, Nat.div_eq_of_lt carry, Nat.zero_add, Nat.add_sub_cancel]
  · obtain rfl : fraction = fractionCount := by omega
    rw [Nat.mod_self, Nat.div_self pos, Nat.add_zero,
      show 1 + (spacing + 1) - 1 = spacing + 1 by omega, Nat.pow_succ]
    ring

/-- Every rank is a spacing and a significand. -/
theorem exists_spaced (rank : Nat) : ∃ spacing significand,
    rank = spacing * fractionCount + significand ∧
      (spacing = 0 ∨ fractionCount ≤ significand) ∧ significand < 2 * fractionCount := by
  have pos : 0 < fractionCount := by decide
  by_cases small : rank < fractionCount
  · exact ⟨0, rank, by omega, .inl rfl, by omega⟩
  · have parts := Nat.div_add_mod' rank fractionCount
    have fraction := Nat.mod_lt rank pos
    obtain ⟨spacing, exponent⟩ : ∃ spacing, rank / fractionCount = spacing + 1 :=
      Nat.exists_eq_add_one.2 (Nat.div_pos (Nat.not_lt.1 small) pos)
    rw [exponent, Nat.succ_mul] at parts
    exact ⟨spacing, fractionCount + rank % fractionCount, by omega, .inr (by omega), by omega⟩

theorem magnitude_lt_succ (rank : Nat) : magnitude rank < magnitude (rank + 1) := by
  obtain ⟨spacing, significand, rfl, low, high⟩ := exists_spaced rank
  rw [Nat.add_assoc, magnitude_spaced low (by omega),
    magnitude_spaced (low.imp_right (by omega)) (by omega)]
  exact Nat.mul_lt_mul_of_pos_right (Nat.lt_succ_self _) (Nat.two_pow_pos _)

theorem magnitude_strictMono : StrictMono magnitude := strictMono_nat_of_lt_succ magnitude_lt_succ

/-- The nearest whole number is no more than a half away, and a half only if it is even. -/
theorem halfEven_bounds {den : Nat} (pos : 0 < den) (num : Nat) :
    2 * num ≤ (2 * halfEven num den + 1) * den ∧ 2 * halfEven num den * den ≤ 2 * num + den ∧
      (2 * num = (2 * halfEven num den + 1) * den ∨ 2 * halfEven num den * den = 2 * num + den →
        halfEven num den % 2 = 0) := by
  have parts := Nat.div_add_mod' num den
  have remainder := Nat.mod_lt num pos
  have twice (n : Nat) : (2 * n + 1) * den = 2 * (n * den) + den ∧
      2 * n * den = 2 * (n * den) := by constructor <;> ring
  have next : (num / den + 1) * den = num / den * den + den := Nat.succ_mul _ _
  unfold halfEven
  simp only [twice]
  split_ifs with below above
  · omega
  · rw [next]
    omega
  · rcases Nat.mod_two_eq_zero_or_one (num / den) with even | odd
    · rw [even, Nat.add_zero]
      omega
    · rw [odd, next]
      omega

/-- The spacing of a fraction: in units of it, the fraction has 53 binary digits in front of its
point, or fewer if the spacing is the smallest. -/
theorem spacing_bounds {den : Nat} (pos : 0 < den) (num : Nat) :
    ((num / den).log2 - 52 = 0 ∨
      fractionCount * (den * 2 ^ ((num / den).log2 - 52)) ≤ num) ∧
      num < 2 * fractionCount * (den * 2 ^ ((num / den).log2 - 52)) := by
  have count : fractionCount = 2 ^ 52 := rfl
  have double : 2 * fractionCount = 2 ^ 53 := rfl
  have shift (k s : Nat) : 2 ^ k * (den * 2 ^ s) = 2 ^ (k + s) * den := by
    rw [Nat.pow_add]
    ring
  have high : num / den < 2 ^ (53 + ((num / den).log2 - 52)) :=
    Nat.lt_of_lt_of_le Nat.lt_log2_self (Nat.pow_le_pow_right (by decide) (by omega))
  rw [double, count, shift, shift]
  refine ⟨?_, (Nat.div_lt_iff_lt_mul pos).1 high⟩
  by_cases small : (num / den).log2 ≤ 52
  · left
    omega
  · right
    have nonzero : num / den ≠ 0 := by
      intro zero
      simp [zero] at small
    rw [Nat.add_sub_cancel' (by omega)]
    exact (Nat.le_div_iff_mul_le pos).1 (Nat.log2_self_le nonzero)

/-- The magnitude behind that of a significand. At a carry it is further away. -/
theorem magnitude_next {spacing significand : Nat}
    (low : spacing = 0 ∨ fractionCount ≤ significand) (high : significand ≤ 2 * fractionCount) :
    (significand + 1) * 2 ^ spacing ≤ magnitude (spacing * fractionCount + significand + 1) := by
  rcases Nat.lt_or_eq_of_le high with below | rfl
  · rw [Nat.add_assoc, magnitude_spaced (low.imp_right (by omega)) below]
  · have carried : spacing * fractionCount + 2 * fractionCount + 1 =
        (spacing + 1) * fractionCount + (fractionCount + 1) := by ring
    have count : fractionCount = 4503599627370496 := rfl
    rw [carried, magnitude_spaced (.inr (by omega)) (by omega), Nat.pow_succ, Nat.mul_comm (2 ^ _),
      ← Nat.mul_assoc]
    exact Nat.mul_le_mul_right _ (by omega)

/-- The magnitude before that of a significand, unless that belongs to a smaller spacing. -/
theorem magnitude_previous {spacing significand : Nat} (some : 0 < significand)
    (first : spacing = 0 ∨ fractionCount < significand) (high : significand ≤ 2 * fractionCount) :
    magnitude (spacing * fractionCount + significand - 1) + 2 ^ spacing =
      significand * 2 ^ spacing := by
  obtain ⟨less, rfl⟩ := Nat.exists_eq_add_one.2 some
  rw [← Nat.add_assoc, Nat.add_sub_cancel,
    magnitude_spaced (first.imp_right Nat.le_of_lt_succ) (by omega), Nat.succ_mul]

/-- The rank that a fraction is rounded to, by its spacing: the significand is the fraction in units
of the spacing, rounded. It has 53 binary digits, or is the first that has one more, or the spacing
is the smallest. -/
theorem nearestRank_spaced {den : Nat} (pos : 0 < den) (num : Nat) : ∃ spacing significand,
    nearestRank num den = spacing * fractionCount + significand ∧
      halfEven (num * unitsPerOne) (den * 2 ^ spacing) = significand ∧
      (spacing = 0 ∨ fractionCount * (den * 2 ^ spacing) ≤ num * unitsPerOne) ∧
      (spacing = 0 ∨ fractionCount ≤ significand) ∧ significand ≤ 2 * fractionCount := by
  unfold nearestRank
  simp only [Nat.pow_eq]
  generalize num * unitsPerOne = scaled
  obtain ⟨low, high⟩ := spacing_bounds pos scaled
  generalize (scaled / den).log2 - 52 = spacing at *
  have spaced : 0 < den * 2 ^ spacing := Nat.mul_pos pos (Nat.two_pow_pos spacing)
  obtain ⟨below, above, -⟩ := halfEven_bounds spaced scaled
  refine ⟨spacing, _, rfl, rfl, low, ?_, ?_⟩
  · refine low.imp_right fun low => ?_
    have : 2 * fractionCount < 2 * halfEven scaled (den * 2 ^ spacing) + 2 := by nlinarith
    omega
  · have : 2 * halfEven scaled (den * 2 ^ spacing) < 2 * (2 * fractionCount) + 1 := by nlinarith
    omega

/-- The rank that a fraction is rounded to: the fraction, in units of 2⁻¹⁰⁷⁴, lies no further than
half way to the magnitudes next to it. -/
theorem nearestRank_bounds {num den rank : Nat} (pos : 0 < den)
    (nearest : nearestRank num den = rank) :
    (magnitude (rank - 1) + magnitude rank) * den ≤ 2 * (num * unitsPerOne) ∧
      2 * (num * unitsPerOne) ≤ (magnitude rank + magnitude (rank + 1)) * den ∧
      ((magnitude (rank - 1) + magnitude rank) * den = 2 * (num * unitsPerOne) ∨
        2 * (num * unitsPerOne) = (magnitude rank + magnitude (rank + 1)) * den →
          rank % 2 = 0) := by
  have count : fractionCount = 4503599627370496 := rfl
  obtain ⟨spacing, significand, spaced, rounded, low, low', high⟩ := nearestRank_spaced pos num
  rw [nearest] at spaced
  generalize num * unitsPerOne = scaled at *
  have units (n : Nat) : n * 2 ^ spacing * den = n * (den * 2 ^ spacing) := by ring
  obtain ⟨below, above, even⟩ :=
    halfEven_bounds (Nat.mul_pos pos (Nat.two_pow_pos spacing)) scaled
  rw [rounded] at below above even
  have here : magnitude rank * den = significand * (den * 2 ^ spacing) := by
    rw [spaced, magnitude_spaced low' high, units]
  have next : (significand + 1) * (den * 2 ^ spacing) ≤ magnitude (rank + 1) * den := by
    rw [spaced, ← units]
    exact Nat.mul_le_mul_right den (magnitude_next low' high)
  have previous (some : 0 < significand) (first : spacing = 0 ∨ fractionCount < significand) :
      magnitude (rank - 1) * den + den * 2 ^ spacing = significand * (den * 2 ^ spacing) := by
    rw [spaced, ← units, ← magnitude_previous some first high]
    ring
  have before : magnitude (rank - 1) * den ≤ magnitude rank * den :=
    Nat.mul_le_mul_right den (magnitude_strictMono.monotone (Nat.sub_le rank 1))
  generalize den * 2 ^ spacing = unit at *
  have parity : rank % 2 = significand % 2 := by
    rw [count] at spaced
    omega
  have twice (n : Nat) : 2 * n * unit = 2 * (n * unit) ∧
      (2 * n + 1) * unit = 2 * (n * unit) + unit := by
    constructor <;> ring
  rw [(twice significand).2] at below even
  rw [(twice significand).1] at above even
  rw [Nat.succ_mul] at next
  rw [Nat.add_mul, Nat.add_mul, here, parity]
  rcases Nat.eq_zero_or_pos significand with none | some
  · have nothing : significand * unit = 0 := by rw [none, Nat.zero_mul]
    omega
  by_cases first : spacing = 0 ∨ fractionCount < significand
  · have := previous some first
    omega
  · -- The magnitude before belongs to the smaller spacing, but the fraction does not lie there.
    obtain rfl : significand = fractionCount := by omega
    have beyond : fractionCount * unit ≤ scaled := low.resolve_left (by omega)
    have apart : magnitude (rank - 1) * den < magnitude rank * den :=
      Nat.mul_lt_mul_of_pos_right (magnitude_strictMono (by omega)) pos
    omega

def value (rank : Nat) : ℚ := magnitude rank / unitsPerOne

theorem value_strictMono : StrictMono value := by
  intro rank rank' lt
  have pos : (0 : ℚ) < unitsPerOne := Nat.cast_pos.2 unitsPerOne_pos
  exact div_lt_div_of_pos_right (Nat.cast_lt.2 (magnitude_strictMono lt)) pos

/-- The double of a rank covers a number: it lies no further than half way to the doubles next to
it, and half way only if the rank is even. There is nothing below zero. -/
structure Covers (rank : Nat) (q : ℚ) : Prop where
  above : value (rank - 1) + value rank ≤ 2 * q
  below : 2 * q ≤ value rank + value (rank + 1)
  even : value (rank - 1) + value rank = 2 * q ∨ 2 * q = value rank + value (rank + 1) →
    rank % 2 = 0

theorem covers_nearestRank {den : Nat} (pos : 0 < den) (num : Nat) :
    Covers (nearestRank num den) (num / den) := by
  obtain ⟨above, below, even⟩ := nearestRank_bounds pos (rfl : nearestRank num den = _)
  generalize nearestRank num den = rank at *
  have den_pos : (0 : ℚ) < den := Nat.cast_pos.2 pos
  have one_pos : (0 : ℚ) < unitsPerOne := Nat.cast_pos.2 unitsPerOne_pos
  have sum (r r' : Nat) : value r + value r' =
      ((magnitude r + magnitude r') * den : Nat) / (unitsPerOne * den) := by
    unfold value
    push_cast
    field_simp
  have twice : 2 * ((num : ℚ) / den) = (2 * (num * unitsPerOne) : Nat) / (unitsPerOne * den) := by
    push_cast
    field_simp
  have scale_pos : (0 : ℚ) < unitsPerOne * den := mul_pos one_pos den_pos
  constructor
  · rw [sum, twice]
    exact div_le_div_of_nonneg_right (Nat.cast_le.2 above) scale_pos.le
  · rw [sum, twice]
    exact div_le_div_of_nonneg_right (Nat.cast_le.2 below) scale_pos.le
  · rw [sum, sum, twice, div_left_inj' scale_pos.ne', div_left_inj' scale_pos.ne', Nat.cast_inj,
      Nat.cast_inj]
    exact even

namespace Covers

variable {rank rank' : Nat} {q q' y : ℚ}

theorem between (h : Covers rank q) (h' : Covers rank q') (low : q ≤ y) (high : y ≤ q') :
    Covers rank y where
  above := by linarith [h.above]
  below := by linarith [h'.below]
  even tie := by
    rcases tie with tie | tie
    · exact h.even (.inl (by linarith [h.above]))
    · exact h'.even (.inr (by linarith [h'.below]))

theorem self (rank : Nat) : Covers rank (value rank) := by
  have next := value_strictMono (Nat.lt_succ_self rank)
  have previous := value_strictMono.monotone (Nat.sub_le rank 1)
  refine ⟨by linarith, by linarith, ?_⟩
  rintro (tie | tie)
  · have same : value (rank - 1) = value rank := by linarith
    have zero := value_strictMono.injective same
    omega
  · linarith

theorem unique (h : Covers rank q) (h' : Covers rank' q) : rank = rank' := by
  wlog lt : rank < rank' generalizing rank rank'
  · rcases Nat.lt_trichotomy rank rank' with lt' | same | gt
    · exact absurd lt' lt
    · exact same
    · exact (this h' h gt).symm
  exfalso
  have low := value_strictMono.monotone (show rank ≤ rank' - 1 by omega)
  have high := value_strictMono.monotone (show rank + 1 ≤ rank' by omega)
  -- The number is half way between two doubles that are next to each other, and both are even.
  have tie : 2 * q = value rank + value (rank + 1) := by linarith [h.below, h'.above]
  have tie' : value (rank' - 1) + value rank' = 2 * q := by linarith [h.below, h'.above]
  have next : rank = rank' - 1 := value_strictMono.injective (by linarith)
  have even := h.even (.inr tie)
  have even' := h'.even (.inl tie')
  omega

end Covers

theorem nearestRank_eq_iff {num den rank : Nat} (pos : 0 < den) :
    nearestRank num den = rank ↔ Covers rank (num / den) := by
  have covers := covers_nearestRank pos num
  constructor
  · rintro rfl
    exact covers
  · exact covers.unique

theorem halfEven_mul {den : Nat} (pos : 0 < den) (n : Nat) : halfEven (n * den) den = n := by
  unfold halfEven
  simp only [Nat.mul_mod_left, Nat.mul_div_cancel n pos, Nat.mul_zero, if_pos pos]

/-- A double that covers a whole number is whole itself. -/
theorem Covers.unitsPerOne_dvd {rank n : Nat} (h : Covers rank n) :
    unitsPerOne ∣ magnitude rank := by
  have nearest : nearestRank n 1 = rank := by
    rw [nearestRank_eq_iff Nat.one_pos, Nat.cast_one, div_one]
    exact h
  obtain ⟨spacing, significand, spaced, rounded, -, low, high⟩ := nearestRank_spaced Nat.one_pos n
  obtain ⟨units, exponent⟩ : ∃ units : ℕ, units = 1074 := ⟨_, rfl⟩
  have power : unitsPerOne = 2 ^ units := by
    unfold unitsPerOne
    rw [← exponent, Nat.pow_eq]
  rw [power, Nat.one_mul] at rounded
  rw [← nearest, spaced, magnitude_spaced low high, power]
  rcases Nat.le_total units spacing with coarse | fine
  · exact dvd_mul_of_dvd_right (pow_dvd_pow 2 coarse) _
  · -- In units of so small a spacing the number is whole already.
    obtain ⟨extra, rfl⟩ := Nat.exists_eq_add_of_le' fine
    rw [Nat.pow_add, ← Nat.mul_assoc, halfEven_mul (Nat.two_pow_pos _)] at rounded
    rw [← rounded, Nat.mul_assoc, ← Nat.pow_add]
    exact dvd_mul_left _ _

theorem magnitude_injective {rank rank' : Nat} (h : magnitude rank = magnitude rank') :
    rank = rank' :=
  magnitude_strictMono.injective h

end ScriptFront.Binary64
