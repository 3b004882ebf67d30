import Mathlib.Algebra.Order.Group.Abs
import Mathlib.Algebra.Order.Group.Unbundled.Abs
import ScriptFront.Proofs.Equality

/-!
# The nearest double

What it is to be a number rounded to nearest: no finite double lies nearer, one that lies as near
has an odd significand, and from half a spacing above the largest double on there is only infinity.
That is what it is to cover a number, up to the largest double.
-/
namespace ScriptFront

namespace Binary64

/-- The number of a finite double. -/
def signedValue (negative : Bool) (rank : Nat) : ℚ := if negative then -value rank else value rank

/-- The significand of a rank, in units of its spacing: with a leading one, unless it is subnormal.
-/
def significand (rank : Nat) : Nat :=
  if rank < fractionCount then rank else fractionCount + rank % fractionCount

/-- `Rounded q x`: the double `x` is the number `q` rounded to nearest, a tie going to the even
significand. It has the sign of `q`, also where it is zero or infinite. -/
inductive Rounded (q : ℚ) : Binary64 → Prop
  | finite {rank : Fin rankBound} (inside : |q| < 2 ^ 1024 - 2 ^ 970)
      (nearest : ∀ (negative : Bool) (other : Fin rankBound),
        |q - signedValue (decide (q < 0)) rank| ≤ |q - signedValue negative other|)
      (even : ∀ (negative : Bool) (other : Fin rankBound),
        signedValue negative other ≠ signedValue (decide (q < 0)) rank →
        |q - signedValue negative other| = |q - signedValue (decide (q < 0)) rank| →
          significand rank % 2 = 0) :
      Rounded q (.finite (decide (q < 0)) rank)
  | infinite (beyond : 2 ^ 1024 - 2 ^ 970 ≤ |q|) : Rounded q (.infinity (decide (q < 0)))

theorem magnitude_eq_significand (rank : Nat) :
    magnitude rank = significand rank * 2 ^ (rank / fractionCount - 1) := by
  unfold magnitude significand
  split_ifs with small
  · rw [Nat.div_eq_of_lt small, Nat.pow_zero, Nat.mul_one]
  · rw [Nat.pow_eq]

theorem significand_mod_two (rank : Nat) : significand rank % 2 = rank % 2 := by
  have count : fractionCount = 2 * 2251799813685248 := rfl
  unfold significand
  split_ifs
  · rfl
  · rw [Nat.add_mod, count, Nat.mul_mod_right, Nat.zero_add, Nat.mod_mod, Nat.mod_mul_right_mod]

theorem value_zero : value 0 = 0 := by
  rw [value, show magnitude 0 = 0 from rfl, Nat.cast_zero, zero_div]

theorem value_nonneg (rank : Nat) : 0 ≤ value rank := by
  rw [← value_zero]
  exact value_strictMono.monotone (Nat.zero_le rank)

theorem abs_signedValue (negative : Bool) (rank : Nat) :
    |signedValue negative rank| = value rank := by
  unfold signedValue
  cases negative <;> simp [abs_of_nonneg (value_nonneg rank)]

/-- Half way between the largest double and what would follow it. -/
theorem value_overflow :
    value (rankBound - 1) + value rankBound = 2 * (2 ^ 1024 - 2 ^ 970) := by
  have magnitudes : magnitude (rankBound - 1) + magnitude rankBound + 2 * 2 ^ 970 * unitsPerOne =
      2 * 2 ^ 1024 * unitsPerOne := by decide +kernel
  have pos : (0 : ℚ) < unitsPerOne := Nat.cast_pos.2 unitsPerOne_pos
  have numbers := congrArg (Nat.cast (R := ℚ)) magnitudes
  simp only [Nat.cast_add, Nat.cast_mul, Nat.cast_pow, Nat.cast_ofNat] at numbers
  unfold value
  rw [← add_div, div_eq_iff pos.ne', mul_sub, sub_mul, ← numbers, add_sub_cancel_right]

/-- Half way between zero and the smallest double. -/
theorem value_underflow : value 0 + value 1 = 2 * 2 ^ (-1075 : ℤ) := by
  have smallest : magnitude 1 = 1 := by decide
  obtain ⟨n, exponent⟩ : ∃ n : ℕ, n = 1074 := ⟨_, rfl⟩
  have halved : (2 : ℚ) * 2 ^ (-1075 : ℤ) = 2 ^ (-n : ℤ) := by
    rw [exponent]
    exact (zpow_one_add₀ two_ne_zero (-1075)).symm
  unfold value unitsPerOne
  rw [← exponent, smallest, halved, zpow_neg, zpow_natCast, Nat.pow_eq, Nat.cast_pow, Nat.cast_one,
    Nat.cast_ofNat, one_div]
  simp [magnitude]

variable {a b q : ℚ} {rank other : Nat} {negative : Bool}

/-- Of two numbers the lower one is as near just up to half way. -/
theorem lower_nearer_iff (lt : a < b) : |q - a| ≤ |q - b| ↔ 2 * q ≤ a + b := by
  constructor
  · intro near
    rcases abs_cases (q - a) with ⟨_, _⟩ | ⟨_, _⟩ <;>
      rcases abs_cases (q - b) with ⟨_, _⟩ | ⟨_, _⟩ <;> linarith
  · intro half
    rcases abs_cases (q - a) with ⟨_, _⟩ | ⟨_, _⟩ <;>
      rcases abs_cases (q - b) with ⟨_, _⟩ | ⟨_, _⟩ <;> linarith

theorem upper_nearer_iff (lt : a < b) : |q - b| ≤ |q - a| ↔ a + b ≤ 2 * q := by
  have mirrored := lower_nearer_iff (q := -q) (neg_lt_neg lt)
  rw [neg_sub_neg, neg_sub_neg, abs_sub_comm b, abs_sub_comm a] at mirrored
  rw [mirrored]
  constructor <;> intro half <;> linarith

theorem equally_near_iff (lt : a < b) : |q - a| = |q - b| ↔ a + b = 2 * q := by
  rw [le_antisymm_iff, lower_nearer_iff lt, upper_nearer_iff lt, le_antisymm_iff, and_comm]

theorem Covers.nearest (h : Covers rank q) (other : Nat) :
    |q - value rank| ≤ |q - value other| ∧
      (other ≠ rank → |q - value other| = |q - value rank| → rank % 2 = 0) := by
  rcases Nat.lt_trichotomy other rank with lt | rfl | gt
  · have lower := value_strictMono.monotone (show other ≤ rank - 1 by omega)
    refine ⟨(upper_nearer_iff (value_strictMono lt)).2 (by linarith [h.above]), fun _ tie => ?_⟩
    have half := (lower_nearer_iff (value_strictMono lt)).1 tie.le
    exact h.even (.inl (by linarith [h.above]))
  · exact ⟨le_rfl, fun differs => absurd rfl differs⟩
  · have upper := value_strictMono.monotone (show rank + 1 ≤ other by omega)
    refine ⟨(lower_nearer_iff (value_strictMono gt)).2 (by linarith [h.below]), fun _ tie => ?_⟩
    have half := (upper_nearer_iff (value_strictMono gt)).1 tie.le
    exact h.even (.inr (by linarith [h.below]))

/-- On its own side of zero a number is as far from a double as without signs. -/
theorem abs_sub_signedValue (q : ℚ) (rank : Nat) :
    |q - signedValue (decide (q < 0)) rank| = |(|q| - value rank)| := by
  unfold signedValue
  by_cases minus : q < 0
  · rw [decide_eq_true minus, if_pos rfl, abs_of_neg minus, ← abs_neg]
    congr 1
    ring
  · rw [decide_eq_false minus, if_neg Bool.false_ne_true, abs_of_nonneg (not_lt.1 minus)]

theorem abs_sub_value_le (q : ℚ) (negative : Bool) (rank : Nat) :
    |(|q| - value rank)| ≤ |q - signedValue negative rank| := by
  rw [← abs_signedValue negative rank]
  exact abs_abs_sub_abs_le q _

/-- On the other side of zero it is as far as both together. -/
theorem abs_sub_signedValue_not (q : ℚ) (rank : Nat) :
    |q - signedValue (!decide (q < 0)) rank| = |q| + value rank := by
  have nonneg := value_nonneg rank
  unfold signedValue
  by_cases minus : q < 0
  · rw [decide_eq_true minus, Bool.not_true, if_neg Bool.false_ne_true, abs_of_neg minus,
      abs_of_neg]
    · ring
    · linarith
  · rw [decide_eq_false minus, Bool.not_false, if_pos rfl, abs_of_nonneg (not_lt.1 minus),
      sub_neg_eq_add, abs_of_nonneg]
    linarith

theorem signedValue_injective (negative : Bool) : Function.Injective (signedValue negative) := by
  intro rank other same
  apply value_strictMono.injective
  rw [← abs_signedValue negative, same, abs_signedValue]

/-- A finite double that is nearest covers the number. -/
theorem covers_of_nearest {rank : Fin rankBound} (inside : q < 2 ^ 1024 - 2 ^ 970) (nonneg : 0 ≤ q)
    (nearest : ∀ other : Fin rankBound, |q - value rank| ≤ |q - value other|)
    (even : ∀ other : Fin rankBound, other ≠ rank → |q - value other| = |q - value rank| →
      rank.val % 2 = 0) : Covers rank q := by
  have before (some : 0 < rank.val) : value (rank - 1) < value rank :=
    value_strictMono (Nat.sub_lt some Nat.one_pos)
  have behind : value rank < value (rank + 1) := value_strictMono (Nat.lt_succ_self rank)
  have last (full : ¬rank.val + 1 < rankBound) : 2 * q < value rank + value (rank + 1) := by
    have largest : rank.val = rankBound - 1 := by omega
    have overflow := value_overflow
    rw [largest, show rankBound - 1 + 1 = rankBound from rfl, overflow]
    exact mul_lt_mul_of_pos_left inside two_pos
  constructor
  · by_cases some : 0 < rank.val
    · exact (upper_nearer_iff (before some)).1 (nearest ⟨rank - 1, by omega⟩)
    · rw [Nat.eq_zero_of_not_pos some, value_zero]
      linarith
  · by_cases full : rank.val + 1 < rankBound
    · exact (lower_nearer_iff behind).1 (nearest ⟨rank + 1, full⟩)
    · exact (last full).le
  · rintro (tie | tie)
    · by_cases some : 0 < rank.val
      · apply even ⟨rank - 1, by omega⟩
        · exact fun same => (before some).ne (congrArg (fun r : Fin _ => value r) same)
        · exact (equally_near_iff (before some)).2 tie
      · omega
    · by_cases full : rank.val + 1 < rankBound
      · apply even ⟨rank + 1, full⟩
        · exact fun same => behind.ne' (congrArg (fun r : Fin _ => value r) same)
        · exact ((equally_near_iff behind).2 tie.symm).symm
      · exact absurd tie (last full).ne

theorem Covers.inside {rank : Fin rankBound} (h : Covers rank q) : q < 2 ^ 1024 - 2 ^ 970 := by
  have overflow := value_overflow
  have low := value_strictMono.monotone (show rank.val ≤ rankBound - 1 by omega)
  have high := value_strictMono.monotone (show rank.val + 1 ≤ rankBound by omega)
  generalize (2 : ℚ) ^ 1024 - 2 ^ 970 = bound at overflow ⊢
  rcases lt_or_eq_of_le h.below with below | tie
  · linarith
  by_contra beyond
  -- Half way above the largest double, whose rank is odd.
  have same : value rank = value (rankBound - 1) := by linarith
  have even := h.even (.inr tie)
  rw [value_strictMono.injective same] at even
  exact absurd even (by decide)

/-- Two numbers of one size on both sides of zero are as near to none but zero. -/
theorem even_of_opposite (covers : Covers rank |q|)
    (differs : signedValue negative rank ≠ signedValue (decide (q < 0)) rank)
    (tie : |q - signedValue negative rank| = |(|q| - value rank)|) : rank % 2 = 0 := by
  rcases Nat.eq_zero_or_pos rank with rfl | some
  · rfl
  have opposite : negative = !decide (q < 0) := by
    rw [Bool.eq_not]
    exact fun same => differs (by rw [same])
  rw [opposite, abs_sub_signedValue_not] at tie
  have before : value (rank - 1) < value rank := value_strictMono (Nat.sub_lt some Nat.one_pos)
  have above := covers.above
  have nonneg := value_nonneg (rank - 1)
  rcases abs_cases (|q| - value rank) with ⟨_, _⟩ | ⟨_, _⟩ <;> linarith

/-- Being rounded to a finite double is being covered by it, with the same sign. -/
theorem rounded_finite_iff {rank : Fin rankBound} :
    Rounded q (.finite negative rank) ↔ negative = decide (q < 0) ∧ Covers rank |q| := by
  constructor
  · rintro (@⟨_, inside, nearest, even⟩ | _)
    refine ⟨rfl, covers_of_nearest inside (abs_nonneg q) ?_ ?_⟩
    · intro other
      rw [← abs_sub_signedValue, ← abs_sub_signedValue]
      exact nearest _ other
    · intro other differs tie
      rw [← abs_sub_signedValue, ← abs_sub_signedValue] at tie
      rw [← significand_mod_two]
      exact even _ other (fun same => differs (Fin.ext (signedValue_injective _ same))) tie
  · rintro ⟨rfl, covers⟩
    refine .finite covers.inside ?_ ?_
    · intro negative other
      rw [abs_sub_signedValue]
      exact (covers.nearest other).1.trans (abs_sub_value_le q negative other)
    · intro negative other differs tie
      rw [abs_sub_signedValue] at tie
      rw [significand_mod_two]
      by_cases same : other = rank
      · subst same
        exact even_of_opposite covers differs tie
      · have near := (covers.nearest other).1
        have far := (abs_sub_value_le q negative other).trans tie.le
        exact (covers.nearest other).2 (fun h => same (Fin.ext h)) (le_antisymm far near)

/-- `UnsignedRounded q x`: the double `x` is the number `q`, which has no sign, rounded to nearest.
It is infinite from half a spacing above the largest double on, and zero up to half the smallest
one. It has no sign, and is not NaN. -/
structure UnsignedRounded (q : ℚ) (x : Binary64) : Prop where
  rounded : Rounded q x
  infinite_iff : x = infinity false ↔ 2 ^ 1024 - 2 ^ 970 ≤ q
  zero_iff : x = zero false ↔ q ≤ 2 ^ (-1075 : ℤ)
  unsigned : x = infinity false ∨ ∃ rank, x = finite false rank

theorem covers_zero_iff (nonneg : 0 ≤ q) : Covers 0 q ↔ q ≤ 2 ^ (-1075 : ℤ) := by
  have underflow := value_underflow
  generalize (2 : ℚ) ^ (-1075 : ℤ) = half at *
  constructor
  · intro covers
    have below := covers.below
    rw [Nat.zero_add, underflow] at below
    linarith
  · intro small
    refine ⟨?_, ?_, fun _ => rfl⟩
    · rw [Nat.zero_sub, value_zero]
      linarith
    · rw [Nat.zero_add, underflow]
      linarith

/-- Beyond the finite ranks, what is covered is beyond the largest double. -/
theorem Covers.beyond (h : Covers rank q) (large : ¬rank < rankBound) : 2 ^ 1024 - 2 ^ 970 ≤ q := by
  have overflow := value_overflow
  have above := h.above
  have low := value_strictMono.monotone (show rankBound - 1 ≤ rank - 1 by omega)
  have high := value_strictMono.monotone (Nat.not_lt.1 large)
  generalize (2 : ℚ) ^ 1024 - 2 ^ 970 = bound at *
  linarith

/-- The double of the rank that covers a number is the number rounded to nearest. -/
theorem Covers.unsignedRounded (h : Covers rank q) (nonneg : 0 ≤ q) :
    UnsignedRounded q (ofRank false rank) := by
  have unsigned : decide (q < 0) = false := decide_eq_false (not_lt.2 nonneg)
  have size : |q| = q := abs_of_nonneg nonneg
  have smallest : rank = 0 ↔ q ≤ 2 ^ (-1075 : ℤ) := by
    rw [← covers_zero_iff nonneg]
    constructor
    · rintro rfl
      exact h
    · exact h.unique
  unfold ofRank
  split_ifs with small
  · refine ⟨rounded_finite_iff.2 ⟨unsigned.symm, by rwa [size]⟩, ?_, ?_, .inr ⟨_, rfl⟩⟩
    · have covers : Covers (⟨rank, small⟩ : Fin rankBound) q := h
      exact iff_of_false (by simp) (not_le.2 covers.inside)
    · rw [← smallest, zero]
      simp
  · have beyond := h.beyond small
    refine ⟨?_, iff_of_true rfl beyond, ?_, .inl rfl⟩
    · have infinite := Rounded.infinite (q := q) (by rwa [size])
      rwa [unsigned] at infinite
    · rw [← smallest]
      have pos : 0 < rankBound := by decide
      exact iff_of_false (by simp [zero]) (by omega)

end Binary64
end ScriptFront
