/-!
# Token types

The types of token that a script is made of: marks, operators, literals, names, keywords and the
end of the text. Each has a name in capitals and a place in a fixed order, and the name
determines the type.
-/
namespace ScriptFront

inductive Keyword
  | andWord | classWord | elseWord | falseWord | forWord | funWord | ifWord | nilWord
  | orWord | printWord | returnWord | superWord | thisWord | trueWord | varWord | whileWord
deriving DecidableEq, Repr

namespace Keyword

/-- The reserved words in alphabetical order. -/
def all : List Keyword := [
  andWord, classWord, elseWord, falseWord, forWord, funWord, ifWord, nilWord,
  orWord, printWord, returnWord, superWord, thisWord, trueWord, varWord, whileWord]

def text : Keyword → String
  | andWord => "and"
  | classWord => "class"
  | elseWord => "else"
  | falseWord => "false"
  | forWord => "for"
  | funWord => "fun"
  | ifWord => "if"
  | nilWord => "nil"
  | orWord => "or"
  | printWord => "print"
  | returnWord => "return"
  | superWord => "super"
  | thisWord => "this"
  | trueWord => "true"
  | varWord => "var"
  | whileWord => "while"

/-- The name of a reserved word as a token type: its text in capitals. -/
def name : Keyword → String
  | andWord => "AND"
  | classWord => "CLASS"
  | elseWord => "ELSE"
  | falseWord => "FALSE"
  | forWord => "FOR"
  | funWord => "FUN"
  | ifWord => "IF"
  | nilWord => "NIL"
  | orWord => "OR"
  | printWord => "PRINT"
  | returnWord => "RETURN"
  | superWord => "SUPER"
  | thisWord => "THIS"
  | trueWord => "TRUE"
  | varWord => "VAR"
  | whileWord => "WHILE"

def ofText? (text : String) : Option Keyword := all.find? (·.text == text)

theorem mem_all (k : Keyword) : k ∈ all := by cases k <;> decide

theorem ofText?_text (k : Keyword) : ofText? k.text = some k := by cases k <;> decide

theorem text_of_ofText? {s : String} {k : Keyword} (h : ofText? s = some k) : k.text = s := by
  simpa using List.find?_some h

end Keyword

inductive TokenType
  | leftParen | rightParen | leftBrace | rightBrace
  | comma | dot | minus | plus | semicolon | star | slash
  | equal | equalEqual | bang | bangEqual | less | lessEqual | greater | greaterEqual
  | string | number | identifier
  | keyword (k : Keyword)
  | eof
deriving DecidableEq, Repr

namespace TokenType

/-- Every token type, in its fixed order. -/
def all : List TokenType :=
  [leftParen, rightParen, leftBrace, rightBrace,
    comma, dot, minus, plus, semicolon, star, slash,
    equal, equalEqual, bang, bangEqual, less, lessEqual, greater, greaterEqual,
    string, number, identifier] ++ Keyword.all.map keyword ++ [eof]

def name : TokenType → String
  | leftParen => "LEFT_PAREN"
  | rightParen => "RIGHT_PAREN"
  | leftBrace => "LEFT_BRACE"
  | rightBrace => "RIGHT_BRACE"
  | comma => "COMMA"
  | dot => "DOT"
  | minus => "MINUS"
  | plus => "PLUS"
  | semicolon => "SEMICOLON"
  | star => "STAR"
  | slash => "SLASH"
  | equal => "EQUAL"
  | equalEqual => "EQUAL_EQUAL"
  | bang => "BANG"
  | bangEqual => "BANG_EQUAL"
  | less => "LESS"
  | lessEqual => "LESS_EQUAL"
  | greater => "GREATER"
  | greaterEqual => "GREATER_EQUAL"
  | string => "STRING"
  | number => "NUMBER"
  | identifier => "IDENTIFIER"
  | keyword k => k.name
  | eof => "EOF"

/-- The place of a token type in the fixed order, counted from one. -/
def ordinal (t : TokenType) : Nat := all.idxOf t + 1

def ofName? (name : String) : Option TokenType := all.find? (·.name == name)

def isKeyword : TokenType → Bool
  | keyword _ => true
  | _ => false

/-- Whether tokens of a type carry a literal. -/
def isLiteral : TokenType → Bool
  | string | number => true
  | _ => false

theorem mem_all (t : TokenType) : t ∈ all := by
  cases t with
  | keyword k => cases k <;> decide
  | _ => decide

theorem ofName?_name (t : TokenType) : ofName? t.name = some t := by
  cases t with
  | keyword k => cases k <;> decide
  | _ => decide

theorem name_injective {t u : TokenType} (h : t.name = u.name) : t = u := by
  have := ofName?_name t
  rw [h, ofName?_name] at this
  exact (Option.some.inj this).symm

end TokenType
end ScriptFront
