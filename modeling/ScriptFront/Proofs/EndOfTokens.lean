import Mathlib.Data.List.TakeWhile
import ScriptFront.Expr.Reader

/-!
# The end of a list of tokens

A list of tokens ends at its first token of type EOF, or else behind the last token, where one is
seen. Nothing that can be done at a place tells the two ends apart, or looks beyond: a place may be
trimmed to the tokens before the end and the one token seen there, and every operation gives the
same answer and leads to the trimmed place.
-/
namespace ScriptFront

namespace TokenCursor

/-- What can be done at a place of a list of tokens. -/
inductive Operation
  | read
  | readLiteral
  | peek
  | advance
  | atEnd
  | check (type : TokenType)
  | consume (type : TokenType) (message : String)
deriving DecidableEq, Repr

/-- What an operation gives. -/
inductive Answer
  | tree (result : Except ReadError Expr)
  | token (t : Token)
  | truth (b : Bool)
  | consumed (result : Except ParseError Token)

/-- The answer of an operation, and the place where it ends. -/
def perform (c : TokenCursor) : Operation → Answer × TokenCursor
  | .read => (Expr.read c).map .tree id
  | .readLiteral => (Expr.readLiteral c).map .tree id
  | .peek => (.token c.peek, c)
  | .advance => (.token c.peek, c.advance)
  | .atEnd => (.truth c.atEnd, c)
  | .check type => (.truth (c.check type), c)
  | .consume type message => (c.consume type message).map .consumed id

/-- The answers of some operations, each from where the one before it ended, and the numbers of the
places where they end. -/
def run (c : TokenCursor) : List Operation → List (Answer × Nat)
  | [] => []
  | op :: ops => ((c.perform op).1, (c.perform op).2.position) :: (c.perform op).2.run ops

/-- The place with nothing left behind the end that is seen from it. -/
def trimmed (c : TokenCursor) : TokenCursor :=
  ⟨c.position, c.rest.takeWhile (·.type != .eof), (c.rest.find? (·.type == .eof)).getD c.ending⟩

variable (c : TokenCursor)

@[simp] theorem peek_trimmed : c.trimmed.peek = c.peek := by
  obtain ⟨position, rest, ending⟩ := c
  cases rest with
  | nil => rfl
  | cons t rest => by_cases last : t.type = .eof <;> simp [peek, trimmed, last]

@[simp] theorem atEnd_trimmed : c.trimmed.atEnd = c.atEnd := by simp [atEnd]

@[simp] theorem check_trimmed (type : TokenType) : c.trimmed.check type = c.check type := by
  simp [check]

theorem advance_trimmed : c.trimmed.advance = c.advance.trimmed := by
  obtain ⟨position, rest, ending⟩ := c
  cases rest with
  | nil => by_cases last : ending.type = .eof <;> simp [advance, atEnd, peek, trimmed, last]
  | cons t rest => by_cases last : t.type = .eof <;> simp [advance, atEnd, peek, trimmed, last]

theorem forward_trimmed (n : Nat) : c.trimmed.forward n = (c.forward n).trimmed := by
  induction n generalizing c with
  | zero => rfl
  | succ n ih => rw [forward, forward, advance_trimmed, ih]

theorem consume_trimmed (type : TokenType) (message : String) :
    c.trimmed.consume type message = (c.consume type message).map id trimmed := by
  unfold consume
  rw [check_trimmed, peek_trimmed, advance_trimmed]
  split <;> rfl

/-- No opener is the end, so all openers stand before it. -/
theorem takeWhile_isOpener_trimmed :
    c.trimmed.rest.takeWhile Token.isOpener = c.rest.takeWhile Token.isOpener := by
  rw [trimmed, List.takeWhile_takeWhile]
  congr 1
  funext t
  cases opener : t.isOpener with
  | false => simp
  | true => simpa using Token.type_ne_eof_of_isOpener opener

/-- Up to the first token of type EOF a list is all that is seen of it. -/
theorem trimmed_append {last : Token} (ends : last.type = .eof) (position : Nat)
    (ts junk : List Token) (ending : Token) :
    trimmed ⟨position, ts ++ last :: junk, ending⟩ = trimmed ⟨position, ts, last⟩ := by
  have before : (ts ++ last :: junk).takeWhile (·.type != .eof) =
      ts.takeWhile (·.type != .eof) := by
    rw [List.takeWhile_append]
    split
    · rename_i whole
      rw [(List.takeWhile_prefix _).eq_of_length whole]
      simp [ends]
    · rfl
  simp [trimmed, before, ends]

end TokenCursor

namespace Expr

open TokenCursor

variable (c : TokenCursor)

theorem readLiteral_trimmed : readLiteral c.trimmed = (readLiteral c).map id trimmed := by
  unfold readLiteral
  rw [peek_trimmed, advance_trimmed]
  split <;> rfl

theorem close_trimmed (openers : List Token) (e : Expr) :
    close openers e c.trimmed = (close openers e c).map id trimmed := by
  induction openers generalizing e c with
  | nil => rfl
  | cons opener outer ih =>
    unfold close
    by_cases left : opener.type = .leftParen
    · rw [if_pos left, if_pos left, consume_trimmed]
      rcases c.consume .rightParen closingMessage with ⟨_ | _, c⟩
      · rfl
      · exact ih c _
    · rw [if_neg left, if_neg left]
      exact ih c _

theorem read_trimmed : read c.trimmed = (read c).map id trimmed := by
  simp only [read, takeWhile_isOpener_trimmed, forward_trimmed, readLiteral_trimmed]
  rcases readLiteral _ with ⟨_ | e, c⟩
  · rfl
  · exact close_trimmed c _ e

end Expr

namespace TokenCursor

/-- An operation does at a trimmed place what it does at the whole one. -/
theorem perform_trimmed (c : TokenCursor) (op : Operation) :
    c.trimmed.perform op = (c.perform op).map id trimmed := by
  cases op with
  | read =>
    rw [perform, perform, Expr.read_trimmed]
    rfl
  | readLiteral =>
    rw [perform, perform, Expr.readLiteral_trimmed]
    rfl
  | consume type message =>
    rw [perform, perform, consume_trimmed]
    rfl
  | peek | atEnd | check type => simp [perform]
  | advance => simp [perform, advance_trimmed]

theorem run_trimmed (c : TokenCursor) (ops : List Operation) : c.trimmed.run ops = c.run ops := by
  induction ops generalizing c with
  | nil => rfl
  | cons op ops ih =>
    rw [run, run, perform_trimmed, Prod.map_fst, Prod.map_snd, ih]
    rfl

theorem run_eq_of_trimmed_eq {c c' : TokenCursor} (same : c.trimmed = c'.trimmed)
    (ops : List Operation) : c.run ops = c'.run ops := by
  rw [← c.run_trimmed, same, c'.run_trimmed]

/-- A token of type EOF behind a list, the one that is seen there without it, makes no difference to
any operations one after another; and neither do any tokens behind a token of type EOF. -/
theorem run_ofTokens_append (ts : List Token) (ops : List Operation) :
    (ofTokens ts).run ops = (ofTokens (ts ++ [endingOf ts])).run ops ∧
    ∀ (last : Token) (junk : List Token), last.type = .eof →
      (ofTokens (ts ++ [last])).run ops = (ofTokens (ts ++ last :: junk)).run ops := by
  constructor
  · apply run_eq_of_trimmed_eq
    exact (trimmed_append rfl 0 ts [] _).symm
  · intro last junk ends
    apply run_eq_of_trimmed_eq
    have alone := trimmed_append ends 0 ts [] (endingOf (ts ++ [last]))
    have more := trimmed_append ends 0 ts junk (endingOf (ts ++ last :: junk))
    exact alone.trans more.symm

/-- A grouping that the end cuts off. -/
def openGrouping : List Token :=
  [⟨.leftParen, "(", .null, 1⟩, ⟨.minus, "-", .null, 1⟩, ⟨.string, "\"a\"", .text "a", 2⟩]

/-- An end with a lexeme, a literal and a line of its own. -/
def strangeEnd : Token := ⟨.eof, "end", .text "x", 9⟩

/-- The right parenthesis behind the end is out of reach, before and after the reading fails. -/
theorem run_openGrouping :
    strangeEnd.type = .eof ∧
    (ofTokens (openGrouping ++ [strangeEnd])).run
        [.read, .consume .rightParen "closed?", .check .eof, .advance, .readLiteral] =
      (ofTokens (openGrouping ++ strangeEnd :: [⟨.rightParen, ")", .null, 3⟩])).run
        [.read, .consume .rightParen "closed?", .check .eof, .advance, .readLiteral] ∧
    (ofTokens (openGrouping ++ [strangeEnd])).run
        [.read, .consume .rightParen "closed?", .check .eof, .advance, .readLiteral] =
      [(.tree (.error (.parse ⟨strangeEnd, .missingToken .rightParen Expr.closingMessage⟩)), 3),
        (.consumed (.error ⟨strangeEnd, .missingToken .rightParen "closed?"⟩), 3),
        (.truth false, 3),
        (.token strangeEnd, 3),
        (.tree (.error (.parse ⟨strangeEnd, .expectedExpression⟩)), 3)] :=
  ⟨rfl, (run_ofTokens_append openGrouping _).2 strangeEnd _ rfl, rfl⟩

end TokenCursor

end ScriptFront
