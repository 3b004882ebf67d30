import ScriptFront.Token.Type
import ScriptFront.Token.Literal

/-!
# Tokens

A token has a type, the text it was written as, a literal value and the line it starts on. A
listing shows it in one line; a description shows every field apart.
-/
namespace ScriptFront

structure Token where
  type : TokenType
  lexeme : String
  literal : Literal
  line : Int
deriving DecidableEq, Repr

namespace Token

/-- The token that ends a text, on its last line. -/
def endOn (line : Int) : Token := ⟨.eof, "", .null, line⟩

def isLiteral (t : Token) : Bool := t.type.isLiteral

def isKeyword (t : Token) : Bool := t.type.isKeyword

/-- The literal as scripts see it: a number in canonical form, a string as it is. -/
def literalText (t : Token) : Except NumberError String :=
  match t.type with
  | .number => t.literal.toNumber.map Binary64.canonical
  | .string => .ok t.literal.display
  | _ => .ok "null"

/-- The token in a listing: type, lexeme and literal. -/
def listed (t : Token) : Except NumberError String :=
  t.literalText.map fun text => t.type.name ++ " " ++ t.lexeme ++ " " ++ text

/-- The description of a token, for a given choice of the characters that print. -/
def describeWith (printable : Char → Bool) (t : Token) : String :=
  "Token(" ++ t.type.name ++ ", " ++ Text.Quoted.encodeWith printable t.lexeme ++ ", "
    ++ t.literal.describeWith printable ++ ", line=" ++ Decimal.integer t.line ++ ")"

def describe (t : Token) : String := t.describeWith Text.isPrintable

/-- Equality of tokens: all four fields, literals as literals are compared. -/
def equal (a b : Token) : Bool :=
  a.type == b.type && a.lexeme == b.lexeme && a.literal.equal b.literal && a.line == b.line

end Token
end ScriptFront
