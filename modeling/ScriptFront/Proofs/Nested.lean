import ScriptFront.Expr.Basic

/-!
# Nested texts

An expression is written in one pass: the heads of its nodes from the outside in, its literal, and
then as many parentheses as nodes are open. By its structure each node is written around the text of
its operand. Both ways lead to the same text, at every depth.
-/
namespace ScriptFront.Expr

/-- The text of an expression by its nodes, each written around the text of its operand. -/
def nested : Expr → String
  | literal (.boolean true) _ => "true"
  | literal (.boolean false) _ => "false"
  | literal (.number x) _ => x.canonical
  | literal (.string s) _ => s
  | literal .nil _ => "nil"
  | grouping inner _ => "(group " ++ inner.nested ++ ")"
  | unary operator operand _ => "(" ++ operator.lexeme ++ " " ++ operand.nested ++ ")"

theorem nested_literal (value : Atom) (line : Int) : (literal value line).nested = value.text := by
  cases value with
  | boolean b => cases b <;> rfl
  | number | string | nil => rfl

/-- One more parenthesis closes the node that was opened last, which is the innermost one. -/
theorem closing_succ (depth : Nat) : String.ofList (List.replicate (depth + 1) ')') =
    ")" ++ String.ofList (List.replicate depth ')') := by
  rw [← String.toList_inj]
  simp [List.replicate_succ]

/-- From any text written so far and with any number of nodes open around it, the pass writes the
nested text of the expression and closes those nodes. -/
theorem textFrom_eq_nested (e : Expr) (written : String) (depth : Nat) : textFrom written depth e =
    written ++ e.nested ++ String.ofList (List.replicate depth ')') := by
  induction e generalizing written depth with
  | literal value line => rw [textFrom, nested_literal]
  | grouping inner line ih =>
    rw [textFrom, ih, closing_succ]
    simp only [nested, String.append_assoc]
  | unary operator operand line ih =>
    rw [textFrom, ih, closing_succ]
    simp only [nested, String.append_assoc]

/-- The one pass with all parentheses at its end writes every expression as it is nested: a literal
by its kind, a grouping around the text of its inner expression, and an operator with its lexeme
around the text of its operand. -/
theorem text_eq_nested (e : Expr) : e.text = e.nested := by
  rw [text, textFrom_eq_nested, List.replicate_zero]
  simp

end ScriptFront.Expr
