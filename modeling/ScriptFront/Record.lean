import ScriptFront.Diagnostic.ScanError
import ScriptFront.Diagnostic.ParseError
import ScriptFront.Expr.Basic

/-!
# Records of what happened

Scanning and parsing leave records of what they found: every scan error, a summary of each scan,
and the outcome of each parse. A record has a channel, a level and a message.
-/
namespace ScriptFront

/-- Which stage a record comes from. -/
inductive Channel
  | scanning | parsing
deriving DecidableEq, Repr

def Channel.name : Channel → String
  | scanning => "Lexer"
  | parsing => "Parser"

/-- Something worth a record. -/
inductive Record
  /-- A scan met an error. -/
  | scanError (filename : String) (error : ScanError)
  /-- A scan reached the end of the text. -/
  | scanned (filename : String) (tokens errors : Nat)
  /-- A parse met an error. -/
  | parseError (error : ParseError)
  /-- A parse read an expression and stopped at a token. -/
  | parsed (kind : Expr.Kind) (position : Nat)
deriving DecidableEq, Repr

namespace Record

def level : String := "DEBUG"

def channel : Record → Channel
  | scanError .. | scanned .. => .scanning
  | parseError .. | parsed .. => .parsing

def message : Record → String
  | scanError filename error => filename ++ ": " ++ error.render
  | scanned filename tokens errors =>
    "Scanned " ++ filename ++ ": " ++ Decimal.integer tokens ++ " tokens, "
      ++ Decimal.integer errors ++ " errors"
  | parseError error => "Parse failed: " ++ error.render
  | parsed kind position =>
    "Parsed " ++ kind.label ++ ", stopped at token " ++ Decimal.integer position

end Record
end ScriptFront
