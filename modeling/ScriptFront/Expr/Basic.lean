import ScriptFront.Token.Basic

/-!
# Expressions

An expression is a chain: groupings and unary operators, each around one operand, with a literal
innermost. Every node knows the line it starts on. Equality looks at everything but those lines;
the operator of a unary node is a token and is compared with its line.
-/
namespace ScriptFront

/-- The value of a literal expression. -/
inductive Atom
  | boolean (b : Bool)
  | number (x : Binary64)
  | string (s : String)
  | nil
deriving DecidableEq, Repr

inductive Atom.Kind
  | boolean | number | string | nil
deriving DecidableEq, Repr

namespace Atom

def Kind.all : List Kind := [.boolean, .number, .string, .nil]

def Kind.name : Kind → String
  | .boolean => "BOOLEAN"
  | .number => "NUMBER"
  | .string => "STRING"
  | .nil => "NIL"

def Kind.label : Kind → String
  | .boolean => "boolean"
  | .number => "number"
  | .string => "string"
  | .nil => "nil"

def kind : Atom → Kind
  | boolean _ => .boolean
  | number _ => .number
  | string _ => .string
  | nil => .nil

/-- Equality of literals: the same kind and the same value, numbers by their quantities. -/
def equal : Atom → Atom → Bool
  | boolean a, boolean b => a == b
  | number x, number y => x.quantity.equal y.quantity
  | string s, string t => s == t
  | nil, nil => true
  | _, _ => false

def text : Atom → String
  | boolean b => if b then "true" else "false"
  | number x => x.canonical
  | string s => s
  | nil => "nil"

end Atom

inductive Expr
  | literal (value : Atom) (line : Int)
  | grouping (inner : Expr) (line : Int)
  | unary (operator : Token) (operand : Expr) (line : Int)
deriving DecidableEq, Repr

inductive Expr.Kind
  | literal | grouping | unary
deriving DecidableEq, Repr

namespace Expr

def Kind.all : List Kind := [.literal, .grouping, .unary]

def Kind.label : Kind → String
  | .literal => "Literal"
  | .grouping => "Grouping"
  | .unary => "Unary"

def Kind.name : Kind → String
  | .literal => "LITERAL"
  | .grouping => "GROUPING"
  | .unary => "UNARY"

/-- The kind of the outermost node. -/
def kind : Expr → Kind
  | literal .. => .literal
  | grouping .. => .grouping
  | unary .. => .unary

/-- The line of the outermost node. -/
def line : Expr → Int
  | literal _ line => line
  | grouping _ line => line
  | unary _ _ line => line

/-- Equality of expressions, whatever the lines of their nodes. -/
def equal : Expr → Expr → Bool
  | literal a _, literal b _ => a.equal b
  | grouping a _, grouping b _ => a.equal b
  | unary o a _, unary p b _ => o.equal p && a.equal b
  | _, _ => false

/-- The text of an expression with `depth` groupings and operators open around it, after the text
`written` so far: heads from the outside in, the literal, then all closing parentheses. -/
def textFrom (written : String) (depth : Nat) : Expr → String
  | literal value _ => written ++ value.text ++ String.ofList (List.replicate depth ')')
  | grouping inner _ => textFrom (written ++ "(group ") (depth + 1) inner
  | unary operator operand _ =>
    textFrom (written ++ "(" ++ operator.lexeme ++ " ") (depth + 1) operand

/-- The text of an expression, in parenthesised form with the operator first. -/
def text (e : Expr) : String := textFrom "" 0 e

end Expr
end ScriptFront
