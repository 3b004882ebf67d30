import ScriptFront.Proofs.NearestDouble

/-!
# The value of an integer

An integer of any size is a number by the finite double that it is rounded to. One that is rounded
beyond all of those is no number.
-/
namespace ScriptFront

namespace Binary64

/-- A double that is no infinity. -/
def finite? : Binary64 → Option Binary64
  | infinity _ => none
  | x => some x

theorem ofInt?_eq (n : ℤ) :
    ofInt? n = finite? (ofRank (decide (n < 0)) (nearestRank n.natAbs 1)) := by
  suffices same : ofInt? = fun n => finite? (ofRank (decide (n < 0)) (nearestRank n.natAbs 1)) from
    congrFun same n
  -- Only the function is unfolded, since the kernel would evaluate the rank at `n`.
  delta ofInt?
  funext n
  cases ofRank (decide (n < 0)) (nearestRank n.natAbs 1) <;> rfl

theorem covers_natAbs (n : ℤ) : Covers (nearestRank n.natAbs 1) |(n : ℚ)| := by
  have covers := covers_nearestRank Nat.one_pos n.natAbs
  rwa [Nat.cast_one, div_one, Nat.cast_natAbs, Int.cast_abs] at covers

/-- The double of an integer is the integer rounded to nearest, with a finite result. -/
theorem ofInt?_eq_some_iff {n : ℤ} {x : Binary64} :
    ofInt? n = some x ↔ ∃ negative rank, x = finite negative rank ∧ Rounded n x := by
  have covers := covers_natAbs n
  have sign : decide ((n : ℚ) < 0) = decide (n < 0) := by simp
  rw [ofInt?_eq]
  generalize nearestRank n.natAbs 1 = found at covers
  unfold ofRank
  split_ifs with inside
  · have here : finite? (finite (decide (n < 0)) ⟨found, inside⟩) =
        some (finite (decide (n < 0)) ⟨found, inside⟩) := rfl
    rw [here, Option.some.injEq]
    constructor
    · rintro rfl
      exact ⟨_, _, rfl, rounded_finite_iff.2 ⟨sign.symm, covers⟩⟩
    · rintro ⟨negative, rank, rfl, rounded⟩
      obtain ⟨rfl, covers'⟩ := rounded_finite_iff.1 rounded
      obtain rfl := covers.unique covers'
      rw [sign]
  · refine iff_of_false (by simp [finite?]) ?_
    rintro ⟨negative, rank, rfl, rounded⟩
    rw [covers.unique (rounded_finite_iff.1 rounded).2] at inside
    exact inside rank.isLt

end Binary64

namespace Literal

open Binary64

theorem toNumber_int (n : ℤ) :
    (int n).toNumber = (ofInt? n).elim (.error .tooLarge) .ok := by
  -- The case split is on a function that is not known, since the kernel would evaluate `ofInt? n`.
  obtain ⟨f, hidden⟩ : ∃ f, f = ofInt? := ⟨_, rfl⟩
  obtain ⟨g, opened⟩ : ∃ g, g = toNumber := ⟨_, rfl⟩
  rw [← opened, ← hidden]
  delta toNumber at opened
  rw [← hidden] at opened
  rw [opened]
  dsimp only
  cases f n <;> rfl

theorem toNumber_eq_ok_iff {l : Literal} {x : Binary64} :
    l.toNumber = .ok x ↔ l = number x ∨ ∃ n, l = int n ∧ ofInt? n = some x := by
  cases l with
  | null =>
    have noNumber : null.toNumber = .error .missing := rfl
    simp [noNumber]
  | text s =>
    have noNumber : (text s).toNumber = .error (.malformed s) := rfl
    simp [noNumber]
  | number y =>
    have itself : (number y).toNumber = .ok y := rfl
    simp [itself]
  | int n =>
    rw [toNumber_int]
    generalize found : ofInt? n = value
    cases value <;> simp [found]

end Literal
end ScriptFront
