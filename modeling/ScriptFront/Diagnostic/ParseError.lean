import ScriptFront.Diagnostic.Basic
import ScriptFront.Token.Basic

/-!
# Parse errors

A parse error points at the token that could not be used. Its cause determines the message, the
code and the hint.
-/
namespace ScriptFront

/-- Why a token could not be used. -/
inductive ParseError.Cause
  /-- No expression starts with the token. -/
  | expectedExpression
  /-- Another type of token has to stand here. -/
  | missingToken (expected : TokenType) (message : String)
  /-- An error in the words of whoever reports it. -/
  | custom (message : String) (code help : Option String)
deriving DecidableEq, Repr

structure ParseError where
  token : Token
  cause : ParseError.Cause
deriving DecidableEq, Repr

namespace ParseError

/-- The code of a token that starts no expression. -/
def expressionCode : String := "P001"

/-- The code of a token that stands where another type is expected. -/
def tokenCode : String := "P002"

def codes : List (String × String) := [
  (expressionCode, "Expected expression"),
  (tokenCode, "Expected token not found")]

/-- The message, without the place. -/
def message (e : ParseError) : String :=
  match e.cause with
  | .expectedExpression => "Expect expression."
  | .missingToken _ message => message
  | .custom message _ _ => message

def code? (e : ParseError) : Option String :=
  match e.cause with
  | .expectedExpression => some expressionCode
  | .missingToken _ _ => some tokenCode
  | .custom _ code _ => code

def help? (e : ParseError) : Option String :=
  match e.cause with
  | .expectedExpression => some (e.token.type.name ++ " cannot start an expression here.")
  | .missingToken expected _ =>
    some ("The parser expected " ++ expected.name ++ " but found " ++ e.token.type.name ++ ".")
  | .custom _ _ help => help

def diagnostic (e : ParseError) : Diagnostic :=
  ⟨e.message, e.token.line, some Diagnostic.errorSeverity, e.code?, e.help?, none⟩

/-- Where the error is: at a lexeme, or at the end of the tokens. -/
def place (e : ParseError) : String :=
  if e.token.type = .eof then "at end" else "at '" ++ e.token.lexeme ++ "'"

def render (e : ParseError) : String :=
  Diagnostic.heading e.token.line ("Error " ++ e.place) ++ e.message

end ParseError
end ScriptFront
