import Mathlib.Data.Nat.Find
import ScriptFront.Proofs.Pipeline

/-!
# Readings one after another

A reading that finds nothing to begin an expression with ends before the token that it refuses, and
every later one refuses that token again. Any other reading gets further. So a list of tokens is used
up, as far as it can be, by no more readings than it has tokens.
-/
namespace ScriptFront.Expr

/-- A reading that finds no value behind the openers it passes. -/
def Stopped (r : Outcome) : Prop :=
  ∃ e, r.1 = .error (.parse e) ∧ e.code? = some ParseError.expressionCode

/-- A token that is refused behind openers is refused without them. -/
theorem Yields.noValue_again {passed : List Token} {next : Token} {e : ParseError}
    (h : Yields passed next (.error (.parse e))) (code : e.code? = some ParseError.expressionCode) :
    Yields [] next (.error (.parse e)) := by
  cases h with
  | noValue opens noOpener noAtom => exact .noValue (by simp) noOpener noAtom
  | noCloser => exact absurd (Option.some.inj code).symm ParseError.codes_apart

theorem Yields.eq_of_nil {next : Token} {result : Except ReadError Expr}
    (h : Yields [] next result) : result = .error (.parse ⟨next, .expectedExpression⟩) := by
  generalize nothing : [] = passed at h
  cases h with
  | noValue => rfl
  | tree | badLiteral | noCloser => simp at nothing

variable {ts : List Token} {start : Nat}

theorem read_of_stopped (h : Stopped (read (.place ts start))) :
    read (read (.place ts start)).2 = read (.place ts start) := by
  obtain ⟨passed, behind, -, -, yields⟩ := yields_of_read_place ts start
  obtain ⟨e, failed, code⟩ := h
  rw [failed] at yields
  have again := read_of_yields_nil (yields.noValue_again code)
  exact again.trans (Prod.ext failed.symm rfl)

theorem exists_lt_of_not_stopped (h : ¬Stopped (read (.place ts start))) :
    ∃ stop, start < stop ∧ stop ≤ ts.length ∧ (read (.place ts start)).2 = .place ts stop := by
  obtain ⟨passed, behind, split, place, yields⟩ := yields_of_read_place ts start
  have taken : 0 < passed.length := by
    rw [List.length_pos_iff]
    rintro rfl
    exact h ⟨_, yields.eq_of_nil, rfl⟩
  have size := congrArg List.length split
  rw [List.length_drop, List.length_append] at size
  exact ⟨_, by omega, by omega, place⟩

theorem exists_afterReadings_place (ts : List Token) (start n : Nat) :
    ∃ stop, afterReadings (.place ts start) n = .place ts stop := by
  induction n with
  | zero => exact ⟨start, rfl⟩
  | succ n ih =>
    obtain ⟨stop, reached⟩ := ih
    obtain ⟨passed, -, -, place, -⟩ := yields_of_read_place ts stop
    exact ⟨stop + passed.length, by rw [afterReadings, reached, place]⟩

/-- As long as none of them is stopped, every reading passes a token of the list. -/
theorem exists_le_of_not_stopped {n : Nat} (goesOn : ∀ m < n, ¬Stopped (reading (.place ts start) m)) :
    ∃ stop, start + n ≤ stop ∧ (n = 0 ∨ stop ≤ ts.length) ∧
      afterReadings (.place ts start) n = .place ts stop := by
  induction n with
  | zero => exact ⟨start, Nat.le_refl _, .inl rfl, rfl⟩
  | succ n ih =>
    obtain ⟨stop, far, -, reached⟩ := ih fun m below => goesOn m (Nat.lt_succ_of_lt below)
    have passes := goesOn n (Nat.lt_succ_self n)
    rw [reading, reached] at passes
    obtain ⟨stop', further, inside, reached'⟩ := exists_lt_of_not_stopped passes
    exact ⟨stop', by omega, .inr inside, by rw [afterReadings, reached, reached']⟩

/-- Some reading is stopped, with no more others before it than there are tokens left. -/
theorem exists_stopped (ts : List Token) (start : Nat) :
    ∃ n ≤ ts.length - start, Stopped (reading (.place ts start) n) := by
  by_contra never
  have goesOn : ∀ m < ts.length - start + 1, ¬Stopped (reading (.place ts start) m) :=
    fun m below stopped => never ⟨m, Nat.le_of_lt_succ below, stopped⟩
  obtain ⟨stop, far, inside, -⟩ := exists_le_of_not_stopped goesOn
  omega

/-- Once a reading is stopped, every later one ends like it. -/
theorem reading_of_stopped {n m : Nat} (h : Stopped (reading (.place ts start) n)) (later : n ≤ m) :
    reading (.place ts start) m = reading (.place ts start) n := by
  induction m, later using Nat.le_induction with
  | base => rfl
  | succ m _ ih =>
    obtain ⟨stop, reached⟩ := exists_afterReadings_place ts start n
    calc reading (.place ts start) (m + 1)
        = read (reading (.place ts start) m).2 := rfl
      _ = read (reading (.place ts start) n).2 := by rw [ih]
      _ = reading (.place ts start) n := by
          rw [reading, reached] at h ⊢
          exact read_of_stopped h

/-- Readings one after another get on or are stopped for good. From every place of every list, a
reading that is not stopped passes at least one token; one that is stopped is repeated by all that
follow, with the same error at the same place; and this comes about after no more readings than
there are tokens from that place on. -/
theorem readings_progress (ts : List Token) (start : Nat) :
    (∀ n, ¬Stopped (reading (.place ts start) n) →
      (afterReadings (.place ts start) n).position < (reading (.place ts start) n).2.position) ∧
    (∀ n, Stopped (reading (.place ts start) n) → ∀ m, n ≤ m →
      reading (.place ts start) m = reading (.place ts start) n) ∧
    ∃ n ≤ ts.length - start, (∀ m < n, ¬Stopped (reading (.place ts start) m)) ∧
      ∀ m, n ≤ m → Stopped (reading (.place ts start) m) := by
  refine ⟨?_, fun _ stopped _ later => reading_of_stopped stopped later, ?_⟩
  · intro n goesOn
    obtain ⟨stop, reached⟩ := exists_afterReadings_place ts start n
    rw [reading, reached] at goesOn ⊢
    obtain ⟨stop', further, -, reached'⟩ := exists_lt_of_not_stopped goesOn
    rw [reached']
    exact further
  · classical
    obtain ⟨n, few, stopped⟩ := exists_stopped ts start
    have comes : ∃ n, Stopped (reading (.place ts start) n) := ⟨n, stopped⟩
    refine ⟨Nat.find comes, (Nat.find_min' comes stopped).trans few, ?_, ?_⟩
    · intro m below
      exact Nat.find_min comes below
    · intro m later
      rw [reading_of_stopped (Nat.find_spec comes) later]
      exact Nat.find_spec comes

/-- A grouping that is not closed, a value behind it, and an operator without one. -/
def brokenGrouping : List Token :=
  [⟨.leftParen, "(", .null, 1⟩, ⟨.number, "1", .int 1, 1⟩, ⟨.keyword .nilWord, "nil", .null, 1⟩,
    ⟨.bang, "!", .null, 2⟩, ⟨.rightParen, ")", .null, 2⟩, ⟨.semicolon, ";", .null, 2⟩]

/-- The grouping and the value are passed, and then every reading is stopped by the parenthesis. -/
theorem reading_brokenGrouping :
    (¬Stopped (reading (.place brokenGrouping 0) 0) ∧
      (afterReadings (.place brokenGrouping 0) 0).position <
        (reading (.place brokenGrouping 0) 0).2.position) ∧
    Stopped (reading (.place brokenGrouping 0) 2) ∧
      reading (.place brokenGrouping 0) 9 = (.error (.parse ⟨⟨.rightParen, ")", .null, 2⟩,
        .expectedExpression⟩), .place brokenGrouping 4) := by
  have first : reading (.place brokenGrouping 0) 0 =
      (.error (.parse ⟨⟨.keyword .nilWord, "nil", .null, 1⟩,
        .missingToken .rightParen closingMessage⟩), .place brokenGrouping 2) := by
    decide +kernel
  have third : reading (.place brokenGrouping 0) 2 =
      (.error (.parse ⟨⟨.rightParen, ")", .null, 2⟩, .expectedExpression⟩),
        .place brokenGrouping 4) := by
    decide +kernel
  have goesOn : ¬Stopped (reading (.place brokenGrouping 0) 0) := by
    rintro ⟨e, failed, code⟩
    rw [first] at failed
    cases failed
    exact absurd code (by decide)
  have stopped : Stopped (reading (.place brokenGrouping 0) 2) := by
    rw [third]
    exact ⟨_, rfl, rfl⟩
  obtain ⟨passes, stays, -⟩ := readings_progress brokenGrouping 0
  exact ⟨⟨goesOn, passes 0 goesOn⟩, stopped, (stays 2 stopped 9 (by decide)).trans third⟩

end ScriptFront.Expr
