import ScriptFront.History
import ScriptFront.Proofs.Adjacent
import ScriptFront.Proofs.CanonicalForm
import ScriptFront.Proofs.CarriageReturn
import ScriptFront.Proofs.Descent
import ScriptFront.Proofs.Description
import ScriptFront.Proofs.EndOfTokens
import ScriptFront.Proofs.Equality
import ScriptFront.Proofs.FirstError
import ScriptFront.Proofs.Gap
import ScriptFront.Proofs.Integers
import ScriptFront.Proofs.Malformed
import ScriptFront.Proofs.Moves
import ScriptFront.Proofs.Nodes
import ScriptFront.Proofs.NumberToken
import ScriptFront.Proofs.Operations
import ScriptFront.Proofs.OperatorLines
import ScriptFront.Proofs.PartialEquivalence
import ScriptFront.Proofs.Pipeline
import ScriptFront.Proofs.Progress
import ScriptFront.Proofs.Records
import ScriptFront.Proofs.Turns
import ScriptFront.Proofs.Unambiguous
import ScriptFront.Proofs.Window
import ScriptFront.Proofs.Written
import ScriptFront.Release
