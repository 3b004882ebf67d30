import ScriptFront.Record
import ScriptFront.Source.Basic
import ScriptFront.Source.Cursor
import ScriptFront.Token.Reading

/-!
# Scans

A scan walks over a text and collects tokens, errors and records. Each pass goes over blanks and
comments and then over one lexeme, which becomes a token or an error; an error never stops the scan.
The scan ends at the end of the text with one token of type EOF. Every pass takes at least one
character, which is why the scan ends.

The rules can also be applied one by one, wherever the scan stands.
-/
namespace ScriptFront

structure Scan where
  source : List Char
  filename : String
  cursor : Cursor
  tokens : Array Token
  errors : Array ScanError
  records : Array Record

/-- Why nothing can be read at a place. -/
inductive Scan.Fault
  /-- The text has no character there. -/
  | outside
  /-- No numeral stands there. -/
  | noNumeral
deriving DecidableEq, Repr

def Scan.Fault.message : Fault → String
  | outside => "string index out of range"
  | noNumeral => (NumberError.malformed "").message

namespace Scan

/-- The scan of a text, before its first character. -/
def ofChars (source : List Char) (filename : String) : Scan :=
  ⟨source, filename, .start source, #[], #[], #[]⟩

def ofSource (source : Source) (filename : String) : Scan := ofChars source.chars filename

/-- What is seen behind the last character. -/
def absent : Char := '\x00'

/-- The character `offset` places from where the scan stands. A place before the first character
is counted back from the end of the text, as far as the text reaches. -/
def look (s : Scan) (offset : Int) : Except Fault Char :=
  match s.cursor.position + offset with
  | .ofNat n => .ok (s.source[n]?.getD absent)
  | .negSucc n =>
    match s.source.reverse[n]? with
    | some x => .ok x
    | none => .error .outside

def advance (s : Scan) : Scan := { s with cursor := s.cursor.advance }

def skipTrivia (s : Scan) : Scan := { s with cursor := s.cursor.skipTrivia }

/-- Moves over the lexeme of a reading, and gives its token or error the given line. -/
def take (s : Scan) (line : Int) (r : Reading) : Except ScanError Token × Scan :=
  (match r.verdict with
    | .ok (type, literal) => .ok ⟨type, String.ofList r.lexeme, literal, line⟩
    | .error cause => .error ⟨cause, line, some s.filename⟩,
    { s with cursor := s.cursor.forward r.lexeme.length })

def string (s : Scan) (line : Int) : Except ScanError Token × Scan :=
  s.take line (.string s.cursor.rest)

def word (s : Scan) (line : Int) : Except ScanError Token × Scan :=
  s.take line (.word s.cursor.rest)

/-- Applies the rule for a number, where a numeral stands. -/
def number (s : Scan) (line : Int) : Except Fault (Except ScanError Token × Scan) :=
  let r := Reading.number s.cursor.rest
  if r.lexeme.isEmpty then .error .noNumeral else .ok (s.take line r)

/-- Applies the rule that the next character selects, to a blank too. -/
def next (s : Scan) : Except Fault (Except ScanError Token × Scan) :=
  match s.cursor.rest with
  | [] => .error .outside
  | x :: cs => .ok (s.take s.cursor.line (.first x cs))

/-- Keeps a token, or an error and a record of it. -/
def keep (s : Scan) : Except ScanError Token → Scan
  | .ok token => { s with tokens := s.tokens.push token }
  | .error e =>
    { s with errors := s.errors.push e, records := s.records.push (.scanError s.filename e) }

/-- One pass: blanks and comments, then one lexeme unless the text has ended. -/
def pass (s : Scan) : Scan :=
  match s.skipTrivia.next with
  | .error _ => s.skipTrivia
  | .ok (found, after) => after.keep found

@[simp] theorem cursor_keep (s : Scan) (found : Except ScanError Token) :
    (s.keep found).cursor = s.cursor := by
  cases found <;> rfl

theorem rest_pass_lt {s : Scan} (h : s.cursor.rest ≠ []) :
    s.pass.cursor.rest.length < s.cursor.rest.length := by
  have pos : 0 < s.cursor.rest.length := List.length_pos_iff.2 h
  unfold pass next
  cases hr : s.skipTrivia.cursor.rest with
  | nil => simp [hr, pos]
  | cons x cs =>
    have short : (x :: cs).length ≤ s.cursor.rest.length := by
      rw [← hr]
      simp [skipTrivia]
    have taken := List.length_pos_iff.2 (Reading.first_lexeme_ne_nil x cs)
    simp only [cursor_keep, take, Cursor.rest_forward, hr, List.length_drop, List.length_cons]
      at short ⊢
    omega

/-- The scan after all its passes. -/
def run (s : Scan) : Scan := if s.cursor.rest = [] then s else s.pass.run
termination_by s.cursor.rest.length
decreasing_by exact rest_pass_lt (by assumption)

/-- Closes a scan with the token of type EOF and a summary. -/
def close (s : Scan) : Scan :=
  let tokens := s.tokens.push (.endOn s.cursor.line)
  { s with
    tokens := tokens
    records := s.records.push (.scanned s.filename tokens.size s.errors.size) }

/-- The scan taken back to before the first character; its records stay. -/
def restart (s : Scan) : Scan :=
  { s with cursor := .start s.source, tokens := #[], errors := #[] }

/-- The whole scan, from the first character to the token of type EOF. -/
def complete (s : Scan) : Scan := s.restart.run.close

def hasErrors (s : Scan) : Bool := !s.errors.isEmpty

/-- The errors in the order they were met, each in one line. -/
def diagnostics (s : Scan) : List String := s.errors.toList.map ScanError.render

end Scan

structure Scanned where
  tokens : List Token
  errors : List ScanError
deriving DecidableEq, Repr

namespace Scanned

def hadError (r : Scanned) : Bool := !r.errors.isEmpty

/-- The tokens of a text without errors, or else its first error. -/
def tokens? (r : Scanned) : Except ScanError (List Token) :=
  match r.errors with
  | [] => .ok r.tokens
  | e :: _ => .error e

end Scanned

/-- Scans a script. Errors are returned beside every token that could be read. -/
def scan (source : Source) (filename : String) : Scanned :=
  let s := (Scan.ofSource source filename).complete
  ⟨s.tokens.toList, s.errors.toList⟩

end ScriptFront
