import ScriptFront.Proofs.Pipeline

/-!
# Layout

The lines of tokens are copied into trees and errors, and nothing is decided by them. Tokens on line
zero are read like the tokens they were made of, with all lines zero in what is read; so two lists of
tokens that differ in lines only are read alike, however often.
-/
namespace ScriptFront

/-- The token on line zero. -/
def Token.lineless (t : Token) : Token := { t with line := 0 }

theorem Token.lineless_eq_iff {t u : Token} : t.lineless = u.lineless ↔
    t.type = u.type ∧ t.lexeme = u.lexeme ∧ t.literal = u.literal := by
  simp [lineless]

@[simp] theorem Token.type_lineless (t : Token) : t.lineless.type = t.type := rfl

@[simp] theorem Token.isOpener_lineless (t : Token) : t.lineless.isOpener = t.isOpener := rfl

def ReadError.lineless : ReadError → ReadError
  | parse e => parse { e with token := e.token.lineless }
  | literal e => literal e

def TokenCursor.lineless (c : TokenCursor) : TokenCursor :=
  ⟨c.position, c.rest.map Token.lineless, c.ending.lineless⟩

theorem TokenCursor.peek_lineless (c : TokenCursor) : c.lineless.peek = c.peek.lineless := by
  obtain ⟨position, rest, ending⟩ := c
  cases rest <;> rfl

@[simp] theorem countType_lineless (type : TokenType) (ts : List Token) :
    countType type (ts.map Token.lineless) = countType type ts := by
  rw [countType, List.countP_map]
  rfl

theorem Chain.lineless {openers closers : List Token} (chain : Chain openers closers) :
    Chain (openers.map Token.lineless) (closers.map Token.lineless) where
  opens := List.forall_mem_map.2 chain.opens
  closes := List.forall_mem_map.2 chain.closes

namespace Expr

/-- The tree with all lines zero, those of its nodes and those of its operators. -/
def lineless : Expr → Expr
  | literal value _ => literal value 0
  | grouping inner _ => grouping inner.lineless 0
  | unary operator operand _ => unary operator.lineless operand.lineless 0

/-- The result of a reading with all lines zero. -/
def linelessResult (result : Except ReadError Expr) : Except ReadError Expr :=
  (result.map lineless).mapError ReadError.lineless

@[simp] theorem atomOf?_lineless (t : Token) : atomOf? t.lineless = atomOf? t := rfl

theorem around_lineless (opener : Token) (e : Expr) :
    around opener.lineless e.lineless = (around opener e).lineless := by
  rw [around, around, Token.type_lineless]
  split <;> rfl

theorem foldr_around_lineless (openers : List Token) (e : Expr) :
    (openers.map Token.lineless).foldr around e.lineless = (openers.foldr around e).lineless := by
  induction openers with
  | nil => rfl
  | cons opener openers ih =>
    rw [List.map_cons, List.foldr_cons, ih, around_lineless, List.foldr_cons]

/-- With all lines zero the same tokens are passed, for the same result. -/
theorem Yields.lineless {passed : List Token} {next : Token} {result : Except ReadError Expr}
    (h : Yields passed next result) :
    Yields (passed.map Token.lineless) next.lineless (linelessResult result) := by
  cases h with
  | tree chain held even =>
    rw [List.map_append, List.map_cons, linelessResult, Except.map, Except.mapError,
      ← foldr_around_lineless]
    exact .tree chain.lineless held (by rwa [List.length_map, countType_lineless])
  | badLiteral opens held =>
    rw [List.map_append]
    exact .badLiteral (List.forall_mem_map.2 opens) held
  | noValue opens noOpener noAtom => exact .noValue (List.forall_mem_map.2 opens) noOpener noAtom
  | noCloser chain held few other =>
    rw [List.map_append, List.map_cons]
    exact .noCloser chain.lineless held (by rwa [List.length_map, countType_lineless]) other

/-- Tokens on line zero are read like the tokens they were made of. -/
theorem read_lineless {c : TokenCursor} (last : c.ending.type = .eof) :
    read c.lineless = (linelessResult (read c).1, (read c).2.lineless) := by
  obtain ⟨passed, behind, split, place, yields⟩ := yields_of_read last
  have zero := yields.lineless
  rw [← TokenCursor.peek_lineless, place, TokenCursor.lineless] at zero
  rw [place, TokenCursor.lineless, TokenCursor.lineless, split, List.map_append]
  have length : (passed.map Token.lineless).length = passed.length := List.length_map _
  rw [← length] at zero ⊢
  exact read_of_yields zero

variable {ts us : List Token}

theorem place_lineless (same : ts.map Token.lineless = us.map Token.lineless) (n : Nat) :
    (TokenCursor.place ts n).lineless = (TokenCursor.place us n).lineless := by
  rw [TokenCursor.lineless, TokenCursor.lineless, TokenCursor.place, TokenCursor.place,
    List.map_drop, List.map_drop, same]
  rfl

/-- From the same place of lists that differ in lines only, readings end at the same place with
results that differ in lines only. -/
theorem read_of_lineless_eq (same : ts.map Token.lineless = us.map Token.lineless) (start : Nat) :
    ∃ stop, (read (.place ts start)).2 = .place ts stop ∧
      (read (.place us start)).2 = .place us stop ∧
      linelessResult (read (.place ts start)).1 = linelessResult (read (.place us start)).1 := by
  obtain ⟨passed, -, -, place, -⟩ := yields_of_read_place ts start
  obtain ⟨passed', -, -, place', -⟩ := yields_of_read_place us start
  have once := read_lineless (c := .place ts start) rfl
  have twice := read_lineless (c := .place us start) rfl
  rw [place_lineless same, twice, Prod.mk.injEq, place, place'] at once
  have stops : start + passed'.length = start + passed.length :=
    congrArg TokenCursor.position once.2
  exact ⟨_, place, stops ▸ place', once.1.symm⟩

/-- Readings one after another go through the same places of such lists. -/
theorem afterReadings_of_lineless_eq (same : ts.map Token.lineless = us.map Token.lineless)
    (start n : Nat) :
    ∃ stop, afterReadings (.place ts start) n = .place ts stop ∧
      afterReadings (.place us start) n = .place us stop := by
  induction n with
  | zero => exact ⟨start, rfl, rfl⟩
  | succ n ih =>
    obtain ⟨stop, reached, reached'⟩ := ih
    obtain ⟨stop', place, place', -⟩ := read_of_lineless_eq same stop
    exact ⟨stop', by rw [afterReadings, reached, place], by rw [afterReadings, reached', place']⟩

theorem textFrom_lineless (e : Expr) (written : String) (depth : Nat) :
    textFrom written depth e.lineless = textFrom written depth e := by
  induction e generalizing written depth with
  | literal => rfl
  | grouping inner line ih => exact ih _ _
  | unary operator operand line ih => exact ih _ _

/-- Results that have everything but lines in common: trees with their texts, refusals with what is
said about them and the token they point at, and literals that are not what their tokens ask for. -/
inductive SameButLines : Except ReadError Expr → Except ReadError Expr → Prop
  | tree {e e' : Expr} (nodes : e.lineless = e'.lineless) (text : e.text = e'.text) :
      SameButLines (.ok e) (.ok e')
  | refusal {e e' : ParseError} (code : e.code? = e'.code?) (message : e.message = e'.message)
      (help : e.help? = e'.help?) (token : e.token.lineless = e'.token.lineless) :
      SameButLines (.error (.parse e)) (.error (.parse e'))
  | literal (e : LiteralError) : SameButLines (.error (.literal e)) (.error (.literal e))

theorem sameButLines_of_lineless {r r' : Except ReadError Expr}
    (same : linelessResult r = linelessResult r') : SameButLines r r' := by
  cases r with
  | ok e =>
    cases r' with
    | ok e' =>
      have nodes : e.lineless = e'.lineless := Except.ok.inj same
      refine .tree nodes ?_
      rw [text, text, ← textFrom_lineless, nodes, textFrom_lineless]
    | error => cases same
  | error e =>
    cases r' with
    | ok => cases same
    | error e' =>
      have errors : e.lineless = e'.lineless := Except.error.inj same
      cases e with
      | parse e =>
        cases e' with
        | parse e' =>
          obtain ⟨token, cause⟩ := e
          obtain ⟨token', cause'⟩ := e'
          obtain ⟨tokens, rfl⟩ := ParseError.mk.inj (ReadError.parse.inj errors)
          have types : token.type = token'.type := (Token.lineless_eq_iff.1 tokens).1
          refine .refusal rfl rfl ?_ tokens
          simp only [ParseError.help?, types]
        | literal => cases errors
      | literal e =>
        cases e' with
        | parse => cases errors
        | literal e' =>
          cases errors
          exact .literal e

/-- Layout does not change what is read. Two lists of tokens that agree in types, lexemes and literals
are read alike from the same place on: each of any number of readings ends at the same place in both,
with results that have everything but lines in common. -/
theorem readings_sameButLines (same : ts.map Token.lineless = us.map Token.lineless)
    (start n : Nat) :
    ∃ stop, (reading (.place ts start) n).2 = .place ts stop ∧
      (reading (.place us start) n).2 = .place us stop ∧
      SameButLines (reading (.place ts start) n).1 (reading (.place us start) n).1 := by
  obtain ⟨stop, reached, reached'⟩ := afterReadings_of_lineless_eq same start n
  rw [reading, reading, reached, reached']
  obtain ⟨stop', place, place', results⟩ := read_of_lineless_eq same stop
  exact ⟨stop', place, place', sameButLines_of_lineless results⟩

/-- A grouping and a second one that is not closed, with a word behind it. -/
def twoGroupings (first second : Int) : List Token :=
  [⟨.leftParen, "(", .null, first⟩, ⟨.minus, "-", .null, first⟩, ⟨.number, "2", .int 2, first⟩,
    ⟨.rightParen, ")", .null, first⟩, ⟨.leftParen, "(", .null, second⟩,
    ⟨.string, "\"a\"", .text "a", second⟩, ⟨.identifier, "x", .null, second⟩]

/-- On other lines the second reading fails for the same reason at the same word. -/
theorem readings_twoGroupings :
    (twoGroupings 1 1).map Token.lineless = (twoGroupings 2 5).map Token.lineless ∧
    (reading (.place (twoGroupings 2 5) 0) 1).1 = .error (.parse ⟨⟨.identifier, "x", .null, 5⟩,
      .missingToken .rightParen closingMessage⟩) ∧
    ∃ stop, (reading (.place (twoGroupings 1 1) 0) 1).2 = .place (twoGroupings 1 1) stop ∧
      (reading (.place (twoGroupings 2 5) 0) 1).2 = .place (twoGroupings 2 5) stop ∧
      SameButLines (reading (.place (twoGroupings 1 1) 0) 1).1
        (reading (.place (twoGroupings 2 5) 0) 1).1 := by
  have same : (twoGroupings 1 1).map Token.lineless = (twoGroupings 2 5).map Token.lineless := rfl
  have fails : (reading (.place (twoGroupings 2 5) 0) 1).1 =
      .error (.parse ⟨⟨.identifier, "x", .null, 5⟩, .missingToken .rightParen closingMessage⟩) := by
    decide +kernel
  exact ⟨same, fails, readings_sameButLines same 0 1⟩

end Expr
end ScriptFront
