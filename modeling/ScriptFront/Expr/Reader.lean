import ScriptFront.Expr.Basic
import ScriptFront.Token.Cursor

/-!
# Reading expressions

An expression is a run of openers, which are unary operators and left parentheses, and a literal,
and then a right parenthesis for every left one. The reader passes all openers, reads the literal
and closes the openers from the innermost outwards, so no depth of nesting is out of reach. The
first token that does not fit ends the reading, and the cursor stays there.
-/
namespace ScriptFront

/-- Why the literal of a token is not the value of an expression. -/
inductive LiteralError
  /-- A number token carries no number. -/
  | number (e : NumberError)
  /-- A string token carries no text. None that is scanned does so, and it is left open what would
  be read. -/
  | noText (literal : Literal)
deriving DecidableEq, Repr

/-- Why no expression was read. -/
inductive ReadError
  /-- A token does not fit. -/
  | parse (e : ParseError)
  /-- A token fits, but its literal does not. -/
  | literal (e : LiteralError)
deriving DecidableEq, Repr

/-- The result of a reading, and the place where it ended. -/
abbrev Outcome := Except ReadError Expr × TokenCursor

/-- Whether a token opens an expression around another one. -/
def Token.isOpener (t : Token) : Bool :=
  t.type == .bang || t.type == .minus || t.type == .leftParen

theorem Token.type_ne_eof_of_isOpener {t : Token} (h : t.isOpener = true) : t.type ≠ .eof := by
  intro last
  simp [isOpener, last] at h

namespace Expr

/-- What a grouping without its right parenthesis is told. -/
def closingMessage : String := "Expect ')' after expression."

def textOf : Literal → Except LiteralError String
  | .text s => .ok s
  | other => .error (.noText other)

/-- The value of a token as a literal expression; none where the type is not that of a literal. -/
def atomOf? (t : Token) : Option (Except LiteralError Atom) :=
  match t.type with
  | .number => some ((t.literal.toNumber.map .number).mapError .number)
  | .string => some ((textOf t.literal).map .string)
  | .keyword .trueWord => some (.ok (.boolean true))
  | .keyword .falseWord => some (.ok (.boolean false))
  | .keyword .nilWord => some (.ok .nil)
  | _ => none

/-- Reads a literal. A token of the right type is passed even where its literal does not fit. -/
def readLiteral (c : TokenCursor) : Outcome :=
  match atomOf? c.peek with
  | none => (.error (.parse ⟨c.peek, .expectedExpression⟩), c)
  | some (.error e) => (.error (.literal e), c.advance)
  | some (.ok value) => (.ok (literal value c.peek.line), c.advance)

/-- Closes openers, innermost first, around an expression. -/
def close : List Token → Expr → TokenCursor → Outcome
  | [], e, c => (.ok e, c)
  | opener :: outer, e, c =>
    if opener.type = .leftParen then
      match c.consume .rightParen closingMessage with
      | (.ok _, c) => close outer (grouping e opener.line) c
      | (.error failure, c) => (.error (.parse failure), c)
    else close outer (unary opener e opener.line) c

/-- Reads one expression; the tokens behind it are left alone. -/
def read (c : TokenCursor) : Outcome :=
  let openers := c.rest.takeWhile Token.isOpener
  match readLiteral (c.forward openers.length) with
  | (.error e, c) => (.error e, c)
  | (.ok e, c) => close openers.reverse e c

/-- The expression that a list of tokens begins with. -/
def ofTokens (ts : List Token) : Except ReadError Expr := (read (.ofTokens ts)).1

end Expr
end ScriptFront
