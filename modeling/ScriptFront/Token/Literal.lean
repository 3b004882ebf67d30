import ScriptFront.Binary64.Text
import ScriptFront.Text.Quoted

/-!
# Literal values

The value that a token carries: none, a text, an integer of any size or a double. Integers and
doubles are compared as the numbers they denote, without rounding.
-/
namespace ScriptFront

inductive Literal
  | null
  | text (s : String)
  | int (n : Int)
  | number (x : Binary64)
deriving DecidableEq, Repr

/-- Why a literal is not a number. -/
inductive NumberError
  /-- There is no value. -/
  | missing
  /-- The integer rounds beyond the largest double. -/
  | tooLarge
  /-- There is a text. No number that is scanned carries one, so none is looked at as a numeral. -/
  | malformed (text : String)
deriving DecidableEq, Repr

def NumberError.message : NumberError → String
  | missing => "float() argument must be a string or a real number, not 'NoneType'"
  | tooLarge => "int too large to convert to float"
  | malformed text => "could not convert string to float: " ++ Text.Quoted.encode text

namespace Literal

/-- The double of a numeric literal; integers are rounded to the nearest one. -/
def toNumber : Literal → Except NumberError Binary64
  | null => .error .missing
  | text s => .error (.malformed s)
  | int n => match Binary64.ofInt? n with
    | some x => .ok x
    | none => .error .tooLarge
  | number x => .ok x

def quantity? : Literal → Option Binary64.Quantity
  | int n => some (.ofInt n)
  | number x => some x.quantity
  | _ => none

/-- Equality of literals: texts by their characters, numbers by their quantities. -/
def equal : Literal → Literal → Bool
  | null, null => true
  | text s, text t => s == t
  | a, b => match a.quantity?, b.quantity? with
    | some x, some y => x.equal y
    | _, _ => false

/-- How a literal is described, for a given choice of the characters that print. -/
def describeWith (printable : Char → Bool) : Literal → String
  | null => "None"
  | text s => Text.Quoted.encodeWith printable s
  | int n => Decimal.integer n
  | number x => x.compact

/-- How a literal is shown by itself: a text as it is, anything else by its description. -/
def display : Literal → String
  | text s => s
  | other => other.describeWith Text.isPrintable

end Literal
end ScriptFront
