import ScriptFront.Decimal.Digits

/-!
# Diagnostics

A diagnostic is a message about a line, with a severity and, where known, a code, a hint and the
name of the file.
-/
namespace ScriptFront

structure Diagnostic where
  message : String
  line : Int
  severity : Option String
  code : Option String
  help : Option String
  filename : Option String
deriving DecidableEq, Repr

namespace Diagnostic

def errorSeverity : String := "error"

/-- The head of a rendered message: its line in brackets, then what kind of message it is. -/
def heading (line : Int) (label : String) : String :=
  "[line " ++ Decimal.integer line ++ "] " ++ label ++ ": "

/-- How a severity is shown: whatever is not an error is a warning. -/
def label (severity : Option String) : String :=
  if severity = some errorSeverity then "Error" else "Warning"

def render (d : Diagnostic) : String := heading d.line (label d.severity) ++ d.message

end Diagnostic
end ScriptFront
