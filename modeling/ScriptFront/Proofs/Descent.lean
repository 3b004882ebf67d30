import ScriptFront.Proofs.IntegerValue
import ScriptFront.Proofs.Reader

/-!
# Recursive descent

The reader keeps the openers it has passed on a stack. Here the same grammar is read by plain
recursion, one call for each opener and no stack to be seen, and everything on the way is written
out: the token that is seen at a place, the literals, and what is raised. Both give the same result
and end at the same place, on every list of tokens; so the stack changes neither what is read nor
which token is refused first.
-/
namespace ScriptFront

/-- What is raised where no expression is read. -/
inductive Raised
  | parse (token : Token) (diagnostic : Diagnostic)
  | number (e : NumberError)
  | noText (literal : Literal)

namespace Raised

/-- At a token that no expression starts with. -/
def expectedExpression (t : Token) : Raised :=
  .parse t ⟨"Expect expression.", t.line, some "error", some "P001",
    some (t.type.name ++ " cannot start an expression here."), none⟩

/-- At a token that stands where a grouping has to be closed. -/
def expectedParenthesis (t : Token) : Raised :=
  .parse t ⟨"Expect ')' after expression.", t.line, some "error", some "P002",
    some ("The parser expected RIGHT_PAREN but found " ++ t.type.name ++ "."), none⟩

end Raised

def ReadError.raised : ReadError → Raised
  | parse e => .parse e.token e.diagnostic
  | literal (.number e) => .number e
  | literal (.noText l) => .noText l

namespace Expr

/-- The token at a place of a list. Behind the list there is one of type EOF, on the line of the
last token. -/
def tokenAt (ts : List Token) (n : Nat) : Token :=
  ts[n]?.getD ⟨.eof, "", .null, (ts.getLast?.map Token.line).getD 1⟩

def numberOf : Literal → Except Raised Binary64
  | .number x => .ok x
  | .int n => (Binary64.ofInt? n).elim (.error (.number .tooLarge)) .ok
  | .null => .error (.number .missing)
  | .text s => .error (.number (.malformed s))

/-- Reads the literal that a token at place `n` stands for. -/
def primary (t : Token) (n : Nat) : Except Raised Expr × Nat :=
  match t.type with
  | .number =>
    match numberOf t.literal with
    | .ok x => (.ok (literal (.number x) t.line), n + 1)
    | .error e => (.error e, n + 1)
  | .string =>
    match t.literal with
    | .text s => (.ok (literal (.string s) t.line), n + 1)
    | other => (.error (.noText other), n + 1)
  | .keyword .trueWord => (.ok (literal (.boolean true) t.line), n + 1)
  | .keyword .falseWord => (.ok (literal (.boolean false) t.line), n + 1)
  | .keyword .nilWord => (.ok (literal .nil t.line), n + 1)
  | _ => (.error (.expectedExpression t), n)

theorem lt_length_of_isOpener {ts : List Token} {n : Nat} (h : (tokenAt ts n).isOpener = true) :
    n < ts.length := by
  by_contra beyond
  rw [tokenAt, List.getElem?_eq_none (Nat.not_lt.1 beyond)] at h
  cases h

/-- Reads the expression at place `n`, and gives the place behind it: a sign and an expression, a
left parenthesis, an expression and a right parenthesis, or else a literal. -/
def descend (ts : List Token) (n : Nat) : Except Raised Expr × Nat :=
  let t := tokenAt ts n
  if t.type = .bang ∨ t.type = .minus then
    match descend ts (n + 1) with
    | (.ok operand, k) => (.ok (unary t operand t.line), k)
    | (.error e, k) => (.error e, k)
  else if t.type = .leftParen then
    match descend ts (n + 1) with
    | (.ok inner, k) =>
      if (tokenAt ts k).type = .rightParen then (.ok (grouping inner t.line), k + 1)
      else (.error (.expectedParenthesis (tokenAt ts k)), k)
    | (.error e, k) => (.error e, k)
  else primary t n
termination_by ts.length - n
decreasing_by
  · rename_i sign
    have inside := lt_length_of_isOpener (Token.isOpener_of_sign sign)
    omega
  · rename_i left
    have inside := lt_length_of_isOpener (Token.isOpener_of_leftParen left)
    omega

theorem peek_place (ts : List Token) (n : Nat) : (TokenCursor.place ts n).peek = tokenAt ts n :=
  TokenCursor.peek_place ts n

theorem numberOf_eq (l : Literal) : numberOf l = l.toNumber.mapError Raised.number := by
  cases l with
  | null | text | number => rfl
  | int n =>
    have here : numberOf (.int n) =
        (Binary64.ofInt? n).elim (.error (.number .tooLarge)) .ok := rfl
    rw [here, Literal.toNumber_int]
    cases Binary64.ofInt? n <;> rfl

/-- The literal that is written out is the one that the reader takes a token for. -/
theorem primary_eq (t : Token) (n : Nat) : primary t n =
    match atomOf? t with
    | none => (.error (.expectedExpression t), n)
    | some (.error e) => (.error (ReadError.literal e).raised, n + 1)
    | some (.ok value) => (.ok (literal value t.line), n + 1) := by
  unfold primary
  split
  · next type =>
    rw [atomOf?, type, numberOf_eq]
    cases t.literal.toNumber <;> rfl
  · next type =>
    rw [atomOf?, type]
    cases t.literal <;> rfl
  · next type => rw [atomOf?, type]
  · next type => rw [atomOf?, type]
  · next type => rw [atomOf?, type]
  · next noNumber noString noTrue noFalse noNil =>
    have none : atomOf? t = none := by
      unfold atomOf?
      split <;> simp_all
    rw [none]

theorem raised_missingToken (t : Token) :
    ReadError.raised (.parse ⟨t, .missingToken .rightParen closingMessage⟩) =
      .expectedParenthesis t := by
  have expected : "The parser expected " ++ TokenType.rightParen.name ++ " but found " =
      "The parser expected RIGHT_PAREN but found " := by decide
  rw [Raised.expectedParenthesis, ← expected]
  rfl

/-- `ReadsAs ts n r`: from place `n` the reader gets what `r` says, and then, if that is a tree, it
closes whatever openers it has passed before. -/
inductive ReadsAs (ts : List Token) (n : Nat) : Except Raised Expr × Nat → Prop
  | tree {e : Expr} {k : Nat}
      (under : ∀ outer, readUnder outer (.place ts n) = close outer e (.place ts k)) :
      ReadsAs ts n (.ok e, k)
  | failure {e : ReadError} {k : Nat}
      (under : ∀ outer, readUnder outer (.place ts n) = (.error e, .place ts k)) :
      ReadsAs ts n (.error e.raised, k)

theorem drop_eq_cons {ts : List Token} {n : Nat} (h : (tokenAt ts n).isOpener = true) :
    ts.drop n = tokenAt ts n :: ts.drop (n + 1) := by
  have inside := lt_length_of_isOpener h
  rw [List.drop_eq_getElem_cons inside, tokenAt, List.getElem?_eq_getElem inside, Option.getD_some]

/-- An opener in a list of tokens joins those passed before. -/
theorem readUnder_place_opener {ts : List Token} {n : Nat} (h : (tokenAt ts n).isOpener = true)
    (outer : List Token) :
    readUnder outer (.place ts n) = readUnder (tokenAt ts n :: outer) (.place ts (n + 1)) := by
  have here := drop_eq_cons h
  calc readUnder outer (.place ts n)
      = readUnder outer ⟨n, tokenAt ts n :: ts.drop (n + 1), TokenCursor.endingOf ts⟩ := by
        rw [← here]
        rfl
    _ = readUnder (tokenAt ts n :: outer) (.place ts (n + 1)) := readUnder_opener h outer n _ _

/-- A grouping is closed by the parenthesis at a place, and not by any other token. -/
theorem close_place {ts : List Token} {opener : Token} (left : opener.type = .leftParen)
    (outer : List Token) (e : Expr) (k : Nat) :
    close (opener :: outer) e (.place ts k) =
      if (tokenAt ts k).type = .rightParen then
        close outer (grouping e opener.line) (.place ts (k + 1))
      else
        (.error (.parse ⟨tokenAt ts k, .missingToken .rightParen closingMessage⟩),
          .place ts k) := by
  have seen := peek_place ts k
  rw [close, if_pos left]
  split_ifs with right
  · have notEnd : (TokenCursor.place ts k).atEnd = false := by
      simp [TokenCursor.atEnd, seen, right]
    rw [TokenCursor.consume, TokenCursor.check, notEnd, seen, right,
      TokenCursor.advance_place notEnd]
    rfl
  · rw [TokenCursor.consume_of_ne (by rwa [seen]), seen]

theorem readsAs_primary {ts : List Token} {n : Nat} (noOpener : (tokenAt ts n).isOpener = false) :
    ReadsAs ts n (primary (tokenAt ts n) n) := by
  have seen := peek_place ts n
  rw [← seen] at noOpener
  rw [primary_eq]
  cases held : atomOf? (tokenAt ts n) with
  | none =>
    refine .failure (e := .parse ⟨tokenAt ts n, .expectedExpression⟩) fun outer => ?_
    rw [readUnder_noOpener noOpener, readLiteral, seen, held]
  | some found =>
    have notEnd : (TokenCursor.place ts n).atEnd = false := by
      simp [TokenCursor.atEnd, seen, type_ne_eof_of_atomOf? held]
    have passed := TokenCursor.advance_place notEnd
    cases found with
    | error e =>
      refine .failure fun outer => ?_
      rw [readUnder_noOpener noOpener, readLiteral, seen, held, passed]
    | ok value =>
      refine .tree fun outer => ?_
      rw [readUnder_noOpener noOpener, readLiteral, seen, held, passed]

namespace ReadsAs

variable {ts : List Token} {n k : Nat}

/-- A tree behind an opener is handed to that opener first. -/
theorem close_behind {e : Expr} (opener : (tokenAt ts n).isOpener = true)
    (h : ReadsAs ts (n + 1) (.ok e, k)) (outer : List Token) :
    readUnder outer (.place ts n) = close (tokenAt ts n :: outer) e (.place ts k) := by
  cases h with
  | tree under => rw [readUnder_place_opener opener, under]

/-- What is raised behind an opener is raised. -/
theorem failure_behind {e : Raised} (opener : (tokenAt ts n).isOpener = true)
    (h : ReadsAs ts (n + 1) (.error e, k)) : ReadsAs ts n (.error e, k) := by
  cases h with
  | failure under =>
    exact .failure fun outer => (readUnder_place_opener opener outer).trans (under _)

end ReadsAs

/-- The reader gets what the descent reads, under any openers. -/
theorem readsAs_descend (ts : List Token) (n : Nat) : ReadsAs ts n (descend ts n) := by
  fun_induction descend ts n with
  | case1 n t sign operand k ran ih =>
    rw [ran] at ih
    have noParen : t.type ≠ .leftParen := by
      rcases sign with sign | sign <;> simp [sign]
    refine .tree fun outer => ?_
    rw [ih.close_behind (Token.isOpener_of_sign sign)]
    exact close_unary noParen outer operand _
  | case2 n t sign e k ran ih =>
    rw [ran] at ih
    exact ih.failure_behind (Token.isOpener_of_sign sign)
  | case3 n t noSign left inner k ran right ih =>
    rw [ran] at ih
    refine .tree fun outer => ?_
    rw [ih.close_behind (Token.isOpener_of_leftParen left), close_place left, if_pos right]
  | case4 n t noSign left inner k ran other ih =>
    rw [ran] at ih
    rw [← raised_missingToken]
    refine .failure fun outer => ?_
    rw [ih.close_behind (Token.isOpener_of_leftParen left), close_place left, if_neg other]
  | case5 n t noSign left e k ran ih =>
    rw [ran] at ih
    exact ih.failure_behind (Token.isOpener_of_leftParen left)
  | case6 n t noSign noParen =>
    refine readsAs_primary ?_
    rw [← Bool.not_eq_true, Token.isOpener_iff, ← or_assoc]
    exact not_or.2 ⟨noSign, noParen⟩

/-- The reader is recursive descent. From every place of every list of tokens it gives the same
tree, or raises the same with the same token, message, code and hint, and ends at the same
place. -/
theorem read_eq_descend (ts : List Token) (n : Nat) :
    (read (.place ts n)).1.mapError ReadError.raised = (descend ts n).1 ∧
      (read (.place ts n)).2 = .place ts (descend ts n).2 := by
  have readsAs := readsAs_descend ts n
  rw [read_eq_readUnder]
  generalize descend ts n = r at readsAs ⊢
  cases readsAs with
  | tree under =>
    rw [under]
    exact ⟨rfl, rfl⟩
  | failure under =>
    rw [under]
    exact ⟨rfl, rfl⟩

end Expr
end ScriptFront
