import ScriptFront.Text.Utf8

/-!
# Sources

A script is handed over as text or as bytes; either way it is scanned as a list of characters.
-/
namespace ScriptFront

/-- A script as it is handed over. -/
inductive Source
  | text (s : String)
  | bytes (bs : List UInt8)

/-- The characters of a script; bytes are read as UTF-8. -/
def Source.chars : Source → List Char
  | text s => s.toList
  | bytes bs => Text.Utf8.decode bs

/-- The name of a script that comes from nowhere else. -/
def Source.standardInput : String := "<stdin>"

/-- The name of a script that is a piece of text. -/
def Source.pieceOfText : String := "<string>"

end ScriptFront
