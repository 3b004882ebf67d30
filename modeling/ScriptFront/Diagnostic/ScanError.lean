import ScriptFront.Diagnostic.Basic
import ScriptFront.Text.Printable
import ScriptFront.Text.Quoted

/-!
# Scan errors

A scan error says on which line of which file a character or a string could not be read. Its
cause determines the message, the code and the hint.
-/
namespace ScriptFront

/-- What could not be read. -/
inductive ScanError.Cause
  /-- A character that no token starts with. -/
  | unexpectedCharacter (c : Char)
  /-- A text reported as one character, such as a letter with its accents. -/
  | unexpectedText (s : String)
  /-- A string that its line or the text ends; `content` stands after the quote. -/
  | unterminatedString (content : String)
  /-- An error in the words of whoever reports it. -/
  | custom (message : String) (code help : Option String)
deriving DecidableEq, Repr

structure ScanError where
  cause : ScanError.Cause
  line : Int
  filename : Option String
deriving DecidableEq, Repr

namespace ScanError

/-- A text that is not one character, where one character is needed. -/
structure NotOneCharacter where
  length : Nat
deriving DecidableEq, Repr

def NotOneCharacter.message (e : NotOneCharacter) : String :=
  "ord() expected a character, but string of length " ++ Decimal.integer e.length ++ " found"

/-- The code of a character that no token starts with. -/
def unexpectedCode : String := "L001"

def unterminatedCode : String := "L002"

def codes : List (String × String) := [
  (unexpectedCode, "Unexpected character"),
  (unterminatedCode, "Unterminated string literal")]

/-- A code point in capital hexadecimal digits, at least four of them. -/
def codePoint (c : Char) : String :=
  let width := if c.toNat < 0x10000 then 4 else if c.toNat < 0x100000 then 5 else 6
  String.ofList ((Text.Quoted.hex width c.toNat).map Char.toUpper)

namespace Cause

/-- The cause for a text reported as one character. A text that does not print is reported by its
code point, so it must be one character. -/
def ofText (s : String) : Except NotOneCharacter Cause :=
  match s.toList with
  | [c] => .ok (.unexpectedCharacter c)
  | cs => if Text.isPrintableText s then .ok (.unexpectedText s) else .error ⟨cs.length⟩

/-- The message, without the line. -/
def message : Cause → String
  | unexpectedCharacter c => "Unexpected character: " ++ String.singleton c
  | unexpectedText s => "Unexpected character: " ++ s
  | unterminatedString _ => "Unterminated string."
  | custom message _ _ => message

def code? : Cause → Option String
  | unexpectedCharacter _ | unexpectedText _ => some unexpectedCode
  | unterminatedString _ => some unterminatedCode
  | custom _ code _ => code

/-- The hint about a text that prints. -/
def invalidText (s : String) : String :=
  "The character '" ++ s ++ "' is not valid in source code."

def help? : Cause → Option String
  | unexpectedCharacter c =>
    some (if Text.isPrintable c then invalidText (String.singleton c)
      else "Non-printable character (U+" ++ codePoint c ++ ") is not allowed.")
  | unexpectedText s => some (invalidText s)
  | unterminatedString _ =>
    some "String literals must be closed with '\"' on the line they start."
  | custom _ _ help => help

end Cause

def diagnostic (e : ScanError) : Diagnostic :=
  ⟨e.cause.message, e.line, some Diagnostic.errorSeverity, e.cause.code?, e.cause.help?, e.filename⟩

def render (e : ScanError) : String := e.diagnostic.render

end ScanError
end ScriptFront
