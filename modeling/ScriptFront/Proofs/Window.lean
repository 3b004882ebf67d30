import ScriptFront.Proofs.Yield

/-!
# What a reading looks at

A reading looks at the tokens it passes, and at the one it stops at where it refuses that token. No
token before them makes a difference, and none behind them; neither does whether there are any.
-/
namespace ScriptFront.Expr

/-- `Decides window n result`: wherever the tokens `window` stand, reading from the first of them ends
with `result`, `n` tokens further on. -/
def Decides (window : List Token) (n : Nat) (result : Except ReadError Expr) : Prop :=
  ∀ before others,
    read (.place (before ++ window ++ others) before.length) =
      (result, .place (before ++ window ++ others) (before.length + n))

/-- Only a token that is refused has to be seen behind those that are passed. -/
theorem Yields.congr_next {passed : List Token} {next : Token} {result : Except ReadError Expr}
    (h : Yields passed next result) (noRefusal : ∀ e, result ≠ .error (.parse e)) (next' : Token) :
    Yields passed next' result := by
  cases h with
  | tree chain held even => exact .tree chain held even
  | badLiteral opens held => exact .badLiteral opens held
  | noValue | noCloser => exact absurd rfl (noRefusal _)

/-- Tokens that yield a result whatever stands behind `more` decide it together with `more`. -/
theorem decides_of_yields {passed : List Token} (more : List Token)
    {result : Except ReadError Expr}
    (h : ∀ others ending, Yields passed ((more ++ others).head?.getD ending) result) :
    Decides (passed ++ more) passed.length result := by
  intro before others
  have split : (before ++ (passed ++ more) ++ others).drop before.length =
      passed ++ (more ++ others) := by
    rw [List.append_assoc, List.drop_left, List.append_assoc]
  rw [← place_behind split, TokenCursor.place, split]
  exact read_of_yields (h others _)

/-- A reading depends on its own tokens alone. Unless it refuses a token, those that it passes decide
what comes of it and where it ends. Where it refuses one, they do so together with that token. -/
theorem read_window {ts : List Token} {start : Nat} {result : Except ReadError Expr}
    {c : TokenCursor} (h : read (.place ts start) = (result, c)) :
    ∃ stop, start ≤ stop ∧ c = .place ts stop ∧
      ((∀ e, result ≠ .error (.parse e)) →
        Decides (ts.extract start stop) (stop - start) result) ∧
      (∀ e, result = .error (.parse e) → stop < ts.length →
        Decides (ts.extract start (stop + 1)) (stop - start) result) := by
  obtain ⟨passed, behind, split, place, yields⟩ := yields_of_read_place ts start
  rw [h] at place yields
  dsimp only at place yields
  refine ⟨start + passed.length, Nat.le_add_right _ _, place, ?_, ?_⟩
  · intro noRefusal
    have decided := decides_of_yields [] fun _ _ => yields.congr_next noRefusal _
    rw [List.append_nil] at decided
    rwa [extract_of_drop split, Nat.add_sub_cancel_left]
  · rintro e - inside
    rw [Nat.add_sub_cancel_left]
    have rest := drop_of_drop split
    cases behind with
    | nil =>
      rw [List.drop_eq_nil_iff] at rest
      omega
    | cons t behind =>
      rw [place, TokenCursor.place, rest] at yields
      have decided := decides_of_yields [t] fun _ _ => yields
      rw [List.append_cons] at split
      have window := extract_of_drop split
      rw [List.length_append, List.length_singleton, ← Nat.add_assoc] at window
      rwa [window]

/-- A grouping between other tokens. -/
def amidGrouping : List Token :=
  [⟨.semicolon, ";", .null, 1⟩, ⟨.leftParen, "(", .null, 1⟩, ⟨.minus, "-", .null, 2⟩,
    ⟨.number, "2", .int 2, 2⟩, ⟨.rightParen, ")", .null, 3⟩, ⟨.identifier, "x", .null, 3⟩]

def amidTree : Expr :=
  grouping (unary ⟨.minus, "-", .null, 2⟩ (literal (.number (.ofBits 0x4000000000000000)) 2) 2) 1

/-- The grouping is read and the word behind it refused, whatever stands around them. -/
theorem decides_amidGrouping :
    read (.place amidGrouping 1) = (.ok amidTree, .place amidGrouping 5) ∧
    Decides (amidGrouping.extract 1 5) 4 (.ok amidTree) ∧
    read (.place amidGrouping 5) =
      (.error (.parse ⟨⟨.identifier, "x", .null, 3⟩, .expectedExpression⟩),
        .place amidGrouping 5) ∧
    Decides (amidGrouping.extract 5 6) 0
      (.error (.parse ⟨⟨.identifier, "x", .null, 3⟩, .expectedExpression⟩)) := by
  have reads : read (.place amidGrouping 1) = (.ok amidTree, .place amidGrouping 5) := by
    decide +kernel
  have refuses : read (.place amidGrouping 5) =
      (.error (.parse ⟨⟨.identifier, "x", .null, 3⟩, .expectedExpression⟩),
        .place amidGrouping 5) := by
    decide +kernel
  obtain ⟨stop, -, reached, decided, -⟩ := read_window reads
  obtain rfl : 5 = stop := congrArg TokenCursor.position reached
  obtain ⟨stop, -, stayed, -, decided'⟩ := read_window refuses
  obtain rfl : 5 = stop := congrArg TokenCursor.position stayed
  exact ⟨reads, decided (by simp), refuses, decided' _ rfl (by decide)⟩

end ScriptFront.Expr
