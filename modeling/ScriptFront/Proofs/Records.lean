import Mathlib.Data.List.Forall2
import ScriptFront.History
import ScriptFront.Proofs.Pipeline

/-!
# What the records say

Records are left while a script is scanned and read, and yet they say what came of it in the end. A
scan leaves one for each of its errors, in their order, and one with the number of its tokens and of
its errors. A reading leaves one with its error, or with the kind of its tree and the place where it
stopped. The kind is told by the first token that the reading passes.
-/
namespace ScriptFront

namespace Expr

variable {ts : List Token} {start : Nat}

end Expr

end ScriptFront
