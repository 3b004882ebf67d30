import ScriptFront.Expr.Reader
import ScriptFront.Scan

/-!
# The history of a script

A history is the list of records that scanning a script and reading expressions from its tokens
leave, in order.
-/
namespace ScriptFront

/-- The record of a reading. A literal that is refused leaves none. -/
def Expr.record? : Outcome → Option Record
  | (.ok e, c) => some (.parsed e.kind c.position)
  | (.error (.parse e), _) => some (.parseError e)
  | (.error (.literal _), _) => none

/-- The records of `n` readings one after another, each from where the one before it ended. -/
def readings (c : TokenCursor) : Nat → List Record
  | 0 => []
  | n + 1 =>
    let outcome := Expr.read c
    (Expr.record? outcome).toList ++ readings outcome.2 n

def history (source : Source) (filename : String) (n : Nat) : List Record :=
  let s := (Scan.ofSource source filename).complete
  s.records.toList ++ readings (.ofTokens s.tokens.toList) n

end ScriptFront
