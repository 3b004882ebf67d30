import Mathlib.Algebra.Order.Field.Power
import Mathlib.Tactic.Positivity
import ScriptFront.Binary64.Shortest
import ScriptFront.Proofs.DecimalDigits
import ScriptFront.Proofs.NearestDouble

/-!
# Shortest decimals

On a grid the numbers that a double covers lie next to each other, around the double. So its two
neighbours tell whether the double covers anything there, and the search stops at the coarsest grid
on which it does. What it finds has the fewest digits of all decimals that the double covers, and is
a nearest one among those with as few.
-/
namespace ScriptFront

namespace Decimal

/-- The units of 10⁻¹⁰⁷⁴ that make up one. -/
@[irreducible] def unitsPerOne : Nat := Nat.pow 10 1074

/-- The exponent is kept as a name, for no step is to write the number out. -/
theorem unitsPerOne_eq {n : Nat} (h : n = 1074) : unitsPerOne = 10 ^ n := by
  unfold unitsPerOne
  rw [← h, Nat.pow_eq]

theorem unitsPerOne_pos : 0 < unitsPerOne := by
  obtain ⟨n, h⟩ : ∃ n, n = 1074 := ⟨_, rfl⟩
  rw [unitsPerOne_eq h]
  exact Nat.pow_pos (by decide)

end Decimal

namespace Binary64

theorem readsBack_iff {rank coefficient place : Nat} : readsBack rank coefficient place = true ↔
    nearestRank (coefficient * 10 ^ place) Decimal.unitsPerOne = rank := by
  obtain ⟨n, h⟩ : ∃ n, n = 1074 := ⟨_, rfl⟩
  unfold readsBack
  rw [Decimal.unitsPerOne_eq h, ← h]
  exact beq_iff_eq

theorem decimalUnits_mul (rank : Nat) :
    decimalUnits rank * unitsPerOne = magnitude rank * Decimal.unitsPerOne := by
  obtain ⟨n, h⟩ : ∃ n, n = 1074 := ⟨_, rfl⟩
  unfold decimalUnits unitsPerOne
  rw [Decimal.unitsPerOne_eq h, ← h, Nat.pow_eq, Nat.pow_eq, Nat.mul_assoc, ← Nat.mul_pow]

/-- The step of the grid of a place. -/
def step (place : Nat) : ℚ := 10 ^ ((place : ℤ) - 1074)

theorem step_pos (place : Nat) : 0 < step place := zpow_pos (by norm_num) _

theorem step_eq (place : Nat) : step place = 10 ^ place / Decimal.unitsPerOne := by
  obtain ⟨n, exponent⟩ : ∃ n : ℕ, n = 1074 := ⟨_, rfl⟩
  have cast : (1074 : ℤ) = n := by rw [exponent]; rfl
  rw [step, Decimal.unitsPerOne_eq exponent, cast, zpow_sub₀ (by norm_num), zpow_natCast,
    zpow_natCast, Nat.cast_pow, Nat.cast_ofNat]

theorem readsBack_iff_covers {rank coefficient place : Nat} :
    readsBack rank coefficient place = true ↔ Covers rank (coefficient * step place) := by
  rw [readsBack_iff, nearestRank_eq_iff Decimal.unitsPerOne_pos, step_eq, ← mul_div_assoc,
    Nat.cast_mul, Nat.cast_pow, Nat.cast_ofNat]

theorem value_eq_units (rank : Nat) :
    value rank = decimalUnits rank / Decimal.unitsPerOne := by
  have pos : (0 : ℚ) < unitsPerOne := Nat.cast_pos.2 unitsPerOne_pos
  have pos' : (0 : ℚ) < Decimal.unitsPerOne := Nat.cast_pos.2 Decimal.unitsPerOne_pos
  rw [value, div_eq_div_iff pos.ne' pos'.ne']
  exact_mod_cast (decimalUnits_mul rank).symm

/-- The neighbour below, on the grid of a place. -/
def low (rank place : Nat) : Nat := decimalUnits rank / Nat.pow 10 place

section Neighbours

variable {rank place : Nat}

theorem low_le : low rank place * step place ≤ value rank := by
  have units : low rank place * 10 ^ place ≤ decimalUnits rank := Nat.div_mul_le_self _ _
  have pos : (0 : ℚ) < Decimal.unitsPerOne := Nat.cast_pos.2 Decimal.unitsPerOne_pos
  rw [value_eq_units, step_eq, ← mul_div_assoc]
  exact div_le_div_of_nonneg_right (by exact_mod_cast units) pos.le

theorem lt_low_succ : value rank < (low rank place + 1 : Nat) * step place := by
  have units : decimalUnits rank < (low rank place + 1) * 10 ^ place := by
    rw [Nat.mul_comm]
    exact Nat.lt_mul_div_succ _ (Nat.pow_pos (by decide))
  have pos : (0 : ℚ) < Decimal.unitsPerOne := Nat.cast_pos.2 Decimal.unitsPerOne_pos
  rw [value_eq_units, step_eq, ← mul_div_assoc]
  exact div_lt_div_of_pos_right (by exact_mod_cast units) pos

/-- Distances on a grid are counted in the units of the finest one. -/
theorem abs_sub_step (k : Nat) : |value rank - k * step place| =
    |(decimalUnits rank : ℚ) - k * (10 ^ place : Nat)| / Decimal.unitsPerOne := by
  have pos : (0 : ℚ) < Decimal.unitsPerOne := Nat.cast_pos.2 Decimal.unitsPerOne_pos
  rw [value_eq_units, step_eq, ← mul_div_assoc, ← sub_div, abs_div, abs_of_pos pos, Nat.cast_pow,
    Nat.cast_ofNat]

/-- No whole number is nearer than the one that is rounded to. -/
theorem halfEven_nearest {den : Nat} (pos : 0 < den) (num k : Nat) :
    |(num : ℚ) - halfEven num den * den| ≤ |(num : ℚ) - k * den| := by
  have pos' : (0 : ℚ) < den := Nat.cast_pos.2 pos
  obtain ⟨below, above, -⟩ := halfEven_bounds pos num
  have below' : 2 * (num : ℚ) ≤ (2 * halfEven num den + 1) * den := by exact_mod_cast below
  have above' : 2 * (halfEven num den : ℚ) * den ≤ 2 * num + den := by exact_mod_cast above
  rcases Nat.lt_trichotomy k (halfEven num den) with lt | rfl | gt
  · have next : (k : ℚ) + 1 ≤ halfEven num den := by exact_mod_cast lt
    refine (upper_nearer_iff (mul_lt_mul_of_pos_right (by linarith) pos')).2 ?_
    nlinarith
  · exact le_rfl
  · have next : (halfEven num den : ℚ) + 1 ≤ k := by exact_mod_cast gt
    refine (lower_nearer_iff (mul_lt_mul_of_pos_right (by linarith) pos')).2 ?_
    nlinarith

/-- Where a number of a grid is covered, one of the two neighbours is, which is no further away. -/
theorem exists_neighbour {k : Nat} (h : Covers rank (k * step place)) :
    ∃ m, (m = low rank place ∨ m = low rank place + 1) ∧ Covers rank (m * step place) ∧
      |value rank - m * step place| ≤ |value rank - k * step place| := by
  have pos := step_pos place
  have below : low rank place * step place ≤ value rank := low_le
  have above : value rank < (low rank place + 1 : Nat) * step place := lt_low_succ
  rcases Nat.lt_or_ge (low rank place) k with gt | le
  · have beyond : (low rank place + 1 : Nat) * step place ≤ k * step place :=
      mul_le_mul_of_nonneg_right (Nat.cast_le.2 gt) pos.le
    refine ⟨_, .inr rfl, (Covers.self rank).between h above.le beyond, ?_⟩
    rw [abs_of_nonpos (by linarith), abs_of_nonpos (by linarith)]
    linarith
  · have before : k * step place ≤ low rank place * step place :=
      mul_le_mul_of_nonneg_right (Nat.cast_le.2 le) pos.le
    refine ⟨_, .inl rfl, h.between (Covers.self rank) before below, ?_⟩
    rw [abs_of_nonneg (by linarith), abs_of_nonneg (by linarith)]
    linarith

theorem halfEven_eq_low (rank place : Nat) :
    halfEven (decimalUnits rank) (10 ^ place) = low rank place ∨
    halfEven (decimalUnits rank) (10 ^ place) = low rank place + 1 := by
  unfold halfEven low
  simp only [Nat.pow_eq]
  split_ifs
  · exact .inl rfl
  · exact .inr rfl
  · rcases Nat.mod_two_eq_zero_or_one (decimalUnits rank / 10 ^ place) with even | odd
    · exact .inl (by rw [even, Nat.add_zero])
    · exact .inr (by rw [odd])

theorem neighbour?_eq (rank place : Nat) : neighbour? rank place =
    [halfEven (decimalUnits rank) (10 ^ place), low rank place, low rank place + 1].find?
      (readsBack rank · place) := rfl

/-- Without a neighbour the double covers nothing on the grid. -/
theorem not_covers_of_neighbour? (h : neighbour? rank place = none) (k : Nat) :
    ¬Covers rank (k * step place) := by
  intro covers
  obtain ⟨m, near, covered, -⟩ := exists_neighbour covers
  rw [neighbour?_eq, List.find?_eq_none] at h
  apply h m _ (readsBack_iff_covers.2 covered)
  rcases near with rfl | rfl <;> simp

/-- Of two neighbours, the nearer tried first, one passes alone unless the nearer is found. -/
theorem find?_neighbours {found : Nat → Bool} {nearer a m c : Nat}
    (h : [nearer, a, a + 1].find? found = some c) (rounded : nearer = a ∨ nearer = a + 1)
    (near : m = a ∨ m = a + 1) (passes : found m = true) : c = nearer ∨ c = m := by
  grind

/-- The neighbour is covered, and nothing on the grid that is covered is nearer. -/
theorem neighbour?_spec {c : Nat} (h : neighbour? rank place = some c) :
    (c = low rank place ∨ c = low rank place + 1) ∧ Covers rank (c * step place) ∧
      ∀ k : Nat, Covers rank (k * step place) →
        |value rank - c * step place| ≤ |value rank - k * step place| := by
  have pos : (0 : ℚ) < Decimal.unitsPerOne := Nat.cast_pos.2 Decimal.unitsPerOne_pos
  have rounded := halfEven_eq_low rank place
  have nearest (k : Nat) :
      |value rank - halfEven (decimalUnits rank) (10 ^ place) * step place| ≤
        |value rank - k * step place| := by
    rw [abs_sub_step, abs_sub_step]
    exact div_le_div_of_nonneg_right (halfEven_nearest (Nat.pow_pos (by decide)) _ k) pos.le
  rw [neighbour?_eq] at h
  generalize halfEven (decimalUnits rank) (10 ^ place) = nearer at *
  have back := List.find?_some h
  have covers := readsBack_iff_covers.1 back
  have mem := List.mem_of_find?_eq_some h
  simp only [List.mem_cons, List.not_mem_nil, or_false] at mem
  refine ⟨?_, covers, ?_⟩
  · rcases mem with rfl | mem
    · exact rounded
    · exact mem
  · intro k covered
    obtain ⟨m, near, covered', nearer'⟩ := exists_neighbour covered
    rcases find?_neighbours h rounded near (readsBack_iff_covers.2 covered') with rfl | rfl
    · exact nearest k
    · exact nearer'

end Neighbours

/-- The finest grid holds the double itself. -/
theorem neighbour?_zero (rank : Nat) : neighbour? rank 0 = some (decimalUnits rank) := by
  have nearest (n : Nat) : halfEven n (10 ^ 0) = n := by simp [halfEven, Nat.mod_one]
  have itself : decimalUnits rank * step 0 = value rank := by
    rw [value_eq_units, step_eq, pow_zero, mul_one_div]
  have back : readsBack rank (decimalUnits rank) 0 = true := by
    rw [readsBack_iff_covers, itself]
    exact .self rank
  rw [neighbour?_eq, nearest]
  exact List.find?_cons_of_pos back

/-- The coarsest decimal is that of the coarsest grid that has one. -/
theorem exists_coarsest {found : Nat → Option Nat} {decimal : Nat → Nat → Decimal} {finest : Nat}
    (last : found 0 = some finest) (place : Nat) : ∃ stop c, stop ≤ place ∧ found stop = some c ∧
      coarsest (fun place => (found place).map (decimal place)) (decimal 0 finest) place =
        decimal stop c ∧
      ∀ coarse, stop < coarse → coarse ≤ place → found coarse = none := by
  induction place with
  | zero => exact ⟨0, finest, Nat.le_refl 0, last, rfl, fun _ _ _ => by omega⟩
  | succ place ih =>
    cases here : found (place + 1) with
    | some c =>
      refine ⟨place + 1, c, Nat.le_refl _, here, ?_, fun _ _ _ => by omega⟩
      simp only [coarsest, here, Option.map_some]
    | none =>
      obtain ⟨stop, c, bound, there, same, coarser⟩ := ih
      refine ⟨stop, c, Nat.le_succ_of_le bound, there, ?_, ?_⟩
      · rw [← same]
        simp only [coarsest, here, Option.map_none]
      · intro coarse gt le
        rcases Nat.lt_or_eq_of_le le with lt | rfl
        · exact coarser coarse gt (Nat.le_of_lt_succ lt)
        · exact here

theorem exists_search (rank place : Nat) : ∃ stop c, stop ≤ place ∧
    neighbour? rank stop = some c ∧ search rank place = onGrid stop c ∧
      ∀ coarse, stop < coarse → coarse ≤ place → neighbour? rank coarse = none :=
  exists_coarsest (neighbour?_zero rank) place

/-- Trimming keeps the number on the grid. -/
theorem value_onGrid (place c : Nat) : (onGrid place c).value = c * step place :=
  Decimal.value_trim _ _

theorem covers_shortest (rank : Nat) : Covers rank (shortest rank).value := by
  obtain ⟨stop, c, -, found, same, -⟩ := exists_search rank (Decimal.log10 (decimalUnits rank))
  obtain ⟨-, covers, -⟩ := neighbour?_spec found
  rw [shortest, same, value_onGrid]
  exact covers

/-- Between two powers of ten that are next to each other, the decimals of so many digits that
matter lie on one grid: any other one has a power of ten between the number and itself, and that
power is on the grid. -/
theorem exists_of_length {rank k : Nat} {top e : ℤ} (lower : 10 ^ top ≤ value rank)
    (upper : value rank < 10 ^ (top + 1)) (some : k ≠ 0) (h : Covers rank (k * 10 ^ e)) :
    ∃ m : Nat, Covers rank (m * 10 ^ (top + 1 - (Decimal.digits k).length)) ∧
      |value rank - m * 10 ^ (top + 1 - (Decimal.digits k).length)| ≤
        |value rank - k * 10 ^ e| := by
  have ten : (1 : ℚ) ≤ 10 := by norm_num
  have pos : (0 : ℚ) < 10 ^ e := zpow_pos (by norm_num) e
  obtain ⟨l, length⟩ : ∃ l : ℕ, (Decimal.digits k).length = l + 1 := ⟨_, Decimal.length_digits k⟩
  have many : 10 ^ l ≤ k := by
    have power := Decimal.pow_log10_le some
    rwa [show Decimal.log10 k = l by rw [Decimal.length_digits] at length; omega] at power
  have few := Decimal.lt_pow_length_digits k
  rw [length] at few ⊢
  have power (n : ℕ) (f : ℤ) : ((10 ^ n : ℕ) : ℚ) * 10 ^ f = 10 ^ (n + f) := by
    rw [Nat.cast_pow, Nat.cast_ofNat, ← zpow_natCast, ← zpow_add₀ (by norm_num)]
  rcases lt_trichotomy (l + e) top with small | same | large
  · have below : (k : ℚ) * 10 ^ e ≤ 10 ^ top := by
      calc (k : ℚ) * 10 ^ e ≤ (10 ^ (l + 1) : ℕ) * 10 ^ e :=
            mul_le_mul_of_nonneg_right (Nat.cast_le.2 few.le) pos.le
        _ = 10 ^ ((l + 1 : ℕ) + e) := power _ _
        _ ≤ 10 ^ top := zpow_le_zpow_right₀ ten (by push_cast; omega)
    have onGrid : ((10 ^ l : ℕ) : ℚ) * 10 ^ (top + 1 - (l + 1 : ℕ)) = 10 ^ top := by
      rw [power]
      congr 1
      push_cast
      omega
    refine ⟨10 ^ l, ?_, ?_⟩ <;> rw [onGrid]
    · exact h.between (.self rank) below lower
    · rw [abs_of_nonneg (by linarith), abs_of_nonneg (by linarith)]
      linarith
  · have exponent : top + 1 - (l + 1 : ℕ) = e := by
      push_cast
      omega
    rw [exponent]
    exact ⟨k, h, le_rfl⟩
  · have above : (10 : ℚ) ^ (top + 1) ≤ k * 10 ^ e := by
      calc (10 : ℚ) ^ (top + 1) ≤ 10 ^ ((l : ℕ) + e) := zpow_le_zpow_right₀ ten (by omega)
        _ = (10 ^ l : ℕ) * 10 ^ e := (power _ _).symm
        _ ≤ k * 10 ^ e := mul_le_mul_of_nonneg_right (Nat.cast_le.2 many) pos.le
    have onGrid : ((10 ^ (l + 1) : ℕ) : ℚ) * 10 ^ (top + 1 - (l + 1 : ℕ)) = 10 ^ (top + 1) := by
      rw [power]
      congr 1
      omega
    refine ⟨10 ^ (l + 1), ?_, ?_⟩ <;> rw [onGrid]
    · exact (Covers.self rank).between h upper.le above
    · rw [abs_of_nonpos (by linarith), abs_of_nonpos (by linarith)]
      linarith

/-- `Shortest rank d`: the double of a rank covers the decimal `d`, which ends in no zero. It covers
no decimal of fewer digits, and none of as many that is nearer. -/
structure Shortest (rank : Nat) (d : Decimal) : Prop where
  covers : Covers rank d.value
  ends : d.coefficient % 10 ≠ 0
  fewest (k : Nat) (e : ℤ) : Covers rank (k * 10 ^ e) →
    (Decimal.digits d.coefficient).length ≤ (Decimal.digits k).length
  nearest (k : Nat) (e : ℤ) : Covers rank (k * 10 ^ e) →
    (Decimal.digits k).length = (Decimal.digits d.coefficient).length →
      |value rank - d.value| ≤ |value rank - k * 10 ^ e|

theorem Covers.ne_zero {rank : Nat} {q : ℚ} (h : Covers rank q) (some : rank ≠ 0) : q ≠ 0 := by
  rintro rfl
  have zero := Covers.self 0
  rw [value_zero] at zero
  exact some (h.unique zero)

/-- A double other than zero lies between the power of ten of its leading digit and the next one. -/
theorem step_log10_bounds {rank : Nat} (some : rank ≠ 0) :
    step (Decimal.log10 (decimalUnits rank)) ≤ value rank ∧
      value rank < step (Decimal.log10 (decimalUnits rank) + 1) := by
  have pos : (0 : ℚ) < Decimal.unitsPerOne := Nat.cast_pos.2 Decimal.unitsPerOne_pos
  have units : decimalUnits rank ≠ 0 := by
    intro none
    have zero : value rank = 0 := by rw [value_eq_units, none, Nat.cast_zero, zero_div]
    exact (Covers.self rank).ne_zero some zero
  have lower := Decimal.pow_log10_le units
  have upper := Decimal.lt_pow_length_digits (decimalUnits rank)
  rw [Decimal.length_digits] at upper
  rw [value_eq_units, step_eq, step_eq]
  exact ⟨div_le_div_of_nonneg_right (by exact_mod_cast lower) pos.le,
    div_lt_div_of_pos_right (by exact_mod_cast upper) pos⟩

/-- On a grid no coarser than the double itself a neighbour has no more digits than the places from
the leading digit of the double to the grid, or is the next power of ten. -/
theorem low_lt {rank stop extra : Nat}
    (top : Decimal.log10 (decimalUnits rank) = stop + extra) :
    low rank stop < 10 ^ (extra + 1) := by
  have upper := Decimal.lt_pow_length_digits (decimalUnits rank)
  rw [Decimal.length_digits, top, Nat.add_assoc, Nat.pow_add] at upper
  exact Nat.div_lt_of_lt_mul upper

/-- Where a double covers nothing on the grids from its leading digit down to that of `stop`, it
covers no decimal with fewer digits than there are places in between, and beside one with as many it
covers a number on the grid of `stop`. -/
theorem le_length_of_covers {rank stop extra : Nat} (some : rank ≠ 0)
    (top : Decimal.log10 (decimalUnits rank) = stop + extra)
    (coarser : ∀ coarse, stop < coarse → coarse ≤ stop + extra → neighbour? rank coarse = none)
    {k : Nat} {e : ℤ} (h : Covers rank (k * 10 ^ e)) :
    extra + 1 ≤ (Decimal.digits k).length ∧ ((Decimal.digits k).length = extra + 1 →
      ∃ m : Nat, Covers rank (m * step stop) ∧
        |value rank - m * step stop| ≤ |value rank - k * 10 ^ e|) := by
  obtain ⟨lower, upper⟩ := step_log10_bounds some
  rw [top] at lower upper
  have k_ne : k ≠ 0 := by
    rintro rfl
    exact h.ne_zero some (by rw [Nat.cast_zero, zero_mul])
  have next : ((stop + extra : ℕ) : ℤ) - 1074 + 1 = ((stop + extra + 1 : ℕ) : ℤ) - 1074 := by
    push_cast
    ring
  have length := Decimal.length_digits k
  obtain ⟨m, covered, nearer⟩ := exists_of_length lower (by rw [next]; exact upper) k_ne h
  constructor
  · by_contra short
    have grid : ((stop + extra : ℕ) : ℤ) - 1074 + 1 - (Decimal.digits k).length =
        ((stop + extra + 1 - (Decimal.digits k).length : ℕ) : ℤ) - 1074 := by omega
    rw [grid] at covered
    exact not_covers_of_neighbour? (coarser _ (by omega) (by omega)) m covered
  · intro long
    have grid : ((stop + extra : ℕ) : ℤ) - 1074 + 1 - (Decimal.digits k).length =
        (stop : ℤ) - 1074 := by omega
    rw [grid] at covered nearer
    exact ⟨m, covered, nearer⟩

/-- What the search finds is the shortest decimal of the double. -/
theorem shortest_spec {rank : Nat} (some : rank ≠ 0) : Shortest rank (shortest rank) := by
  obtain ⟨stop, c, bound, found, same, coarser⟩ :=
    exists_search rank (Decimal.log10 (decimalUnits rank))
  obtain ⟨near, covers, nearest⟩ := neighbour?_spec found
  obtain ⟨extra, top⟩ := Nat.exists_eq_add_of_le bound
  rw [top] at coarser
  have nonzero : c ≠ 0 := by
    rintro rfl
    exact covers.ne_zero some (by rw [Nat.cast_zero, zero_mul])
  have small : c ≤ 10 ^ (extra + 1) := by
    have := low_lt top
    omega
  have few : (Decimal.digits (onGrid stop c).coefficient).length ≤ extra + 1 :=
    Decimal.length_digits_trim small
  unfold shortest
  rw [same]
  constructor
  · rw [value_onGrid]
    exact covers
  · exact Decimal.trim_mod_ten nonzero
  · intro k e h
    exact few.trans (le_length_of_covers some top coarser h).1
  · intro k e h length
    obtain ⟨many, beside⟩ := le_length_of_covers some top coarser h
    obtain ⟨m, covered, nearer⟩ := beside (by omega)
    rw [value_onGrid]
    exact (nearest m covered).trans nearer

end Binary64
end ScriptFront
