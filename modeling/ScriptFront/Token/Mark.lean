import ScriptFront.Token.Type

/-!
# Marks and character classes

The characters that are tokens by themselves, the characters that an equals sign may follow to
make one operator, and the classes of character that numbers, words and blanks are made of. The
classes are ASCII only: any other letter, digit or blank starts no token.

The classes of digits and of word characters extend to texts by dictionary order. Among texts of
one character they are the classes of characters again.
-/
namespace ScriptFront

/-- The marks that stand alone. The slash is not among them, for two of them begin a comment. -/
def singleMarks : List (Char × TokenType) := [
  ('(', .leftParen), (')', .rightParen), ('\x7b', .leftBrace), ('\x7d', .rightBrace),
  (',', .comma), ('.', .dot), ('-', .minus), ('+', .plus), (';', .semicolon), ('*', .star)]

/-- The operators, each with its type alone and its type with an equals sign after it. -/
def operatorMarks : List (Char × TokenType × TokenType) := [
  ('=', .equal, .equalEqual), ('!', .bang, .bangEqual),
  ('<', .less, .lessEqual), ('>', .greater, .greaterEqual)]

def isDigit (c : Char) : Bool := decide ('0' ≤ c ∧ c ≤ '9')

/-- A character that a word may start with: a letter or the underscore. -/
def isWordStart (c : Char) : Bool :=
  decide ('a' ≤ c ∧ c ≤ 'z') || decide ('A' ≤ c ∧ c ≤ 'Z') || c == '_'

def isWordPart (c : Char) : Bool := isWordStart c || isDigit c

/-- A blank: space, tab, carriage return or line feed. -/
def isBlank (c : Char) : Bool := c == ' ' || c == '\t' || c == '\r' || c == '\n'

/-- A character that may stand inside a string: any but the double quote and the line feed. -/
def isStringPart (c : Char) : Bool := c != '"' && c != '\n'

/-- Whether a text stands between two characters in dictionary order, both included. A text that
goes on behind the upper character comes after it. -/
def isBetween (low high : Char) : List Char → Bool
  | [] => false
  | x :: more => decide (low ≤ x) && (decide (x < high) || (x == high && more.isEmpty))

def isDigitText (text : String) : Bool := isBetween '0' '9' text.toList

def isWordStartText (text : String) : Bool :=
  isBetween 'a' 'z' text.toList || isBetween 'A' 'Z' text.toList || text == "_"

def isWordPartText (text : String) : Bool := isWordStartText text || isDigitText text

@[simp] theorem isBetween_singleton (low high x : Char) :
    isBetween low high [x] = decide (low ≤ x ∧ x ≤ high) := by
  have : x ≤ high ↔ x < high ∨ x = high := by
    constructor
    · intro h
      by_cases reached : high ≤ x
      · exact .inr (Char.le_antisymm h reached)
      · exact .inl (Char.not_le.1 reached)
    · rintro (h | rfl)
      · exact Char.not_lt.1 (Char.lt_asymm h)
      · exact Char.le_refl x
  simp [isBetween, this, Bool.beq_eq_decide_eq]

/-- A text of one digit is among the digits, and no other text of one character is. -/
theorem isDigitText_singleton (x : Char) : isDigitText (String.singleton x) = isDigit x := by
  simp [isDigitText, isDigit]

end ScriptFront
