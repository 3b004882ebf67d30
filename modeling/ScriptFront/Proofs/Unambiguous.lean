import ScriptFront.Proofs.Equality
import ScriptFront.Proofs.Nested
import ScriptFront.Proofs.NumberText
import ScriptFront.Proofs.SignedForm

/-!
# Unambiguous texts

The text of an expression without strings tells its nodes, from the outside in, and its literal. The
first character tells a node from a literal, and the second one tells the nodes apart; and different
literals have different texts, for a number is written so that it can be read back.
-/
namespace ScriptFront

namespace Binary64

/-- The canonical form has a sign, and its finite doubles are numerals. -/
theorem signedForm_canonical : SignedForm canonical 'I' 'N' where
  finite_injective {rank rank'} same := by
    have matched := lexeme_canonical rank
    rw [same] at matched
    obtain ⟨-, literal⟩ := matched.unique (lexeme_canonical rank')
    cases literal
    rfl
  finite_first rank := by
    obtain ⟨whole, fraction, text, digits, -, -⟩ := exists_numeral_canonical rank
    obtain ⟨x, more, rfl⟩ := List.exists_cons_of_ne_nil digits.ne_nil
    exact ⟨x, _, text, digits.digit x (by simp)⟩
  finite_sign rank := by simp [canonical, signed]
  infinite_first := ⟨_, rfl⟩
  infinite_sign := rfl
  nan_first := ⟨_, rfl⟩
  letters := by decide

end Binary64

namespace Atom

/-- A literal other than a string begins with no parenthesis. -/
theorem toList_text_ne {value : Atom} (plain : ∀ s, value ≠ string s) (cs : List Char) :
    value.text.toList ≠ '(' :: cs := by
  cases value with
  | boolean b => cases b <;> exact fun same => absurd (List.cons.inj same).1 (by decide)
  | number x => exact Binary64.signedForm_canonical.ne_cons cs (by decide) x
  | string s => exact absurd rfl (plain s)
  | nil => exact fun same => absurd (List.cons.inj same).1 (by decide)

/-- The text of a double is none of the words that other literals are written as. -/
theorem canonical_ne_text {value : Atom} (x : Binary64)
    (other : value = nil ∨ ∃ b, value = boolean b) :
    x.canonical ≠ value.text := by
  rw [Ne, ← String.toList_inj]
  rcases other with rfl | ⟨_ | _, rfl⟩ <;>
    exact Binary64.signedForm_canonical.ne_cons _ (by decide) x

theorem eq_of_text_eq {value value' : Atom} (plain : ∀ s, value ≠ string s)
    (plain' : ∀ s, value' ≠ string s) (same : value.text = value'.text) : value = value' := by
  cases value with
  | boolean b =>
    cases value' with
    | boolean b' => cases b <;> cases b' <;> first | rfl | exact absurd same (by decide)
    | number x => exact absurd same.symm (canonical_ne_text x (.inr ⟨b, rfl⟩))
    | string s => exact absurd rfl (plain' s)
    | nil => cases b <;> exact absurd same (by decide)
  | number x =>
    cases value' with
    | boolean b => exact absurd same (canonical_ne_text x (.inr ⟨b, rfl⟩))
    | number y => rw [Binary64.signedForm_canonical.injective same]
    | string s => exact absurd rfl (plain' s)
    | nil => exact absurd same (canonical_ne_text x (.inl rfl))
  | string s => exact absurd rfl (plain s)
  | nil =>
    cases value' with
    | boolean b => cases b <;> exact absurd same (by decide)
    | number x => exact absurd same.symm (canonical_ne_text x (.inl rfl))
    | string s => exact absurd rfl (plain' s)
    | nil => rfl

end Atom

namespace Expr

/-- A node around an operand: a grouping, or an operator with its lexeme. -/
inductive Head
  | grouping
  | operator (lexeme : String)
deriving DecidableEq

/-- The nodes around the literal, from the outside in. -/
def heads : Expr → List Head
  | literal _ _ => []
  | grouping inner _ => .grouping :: inner.heads
  | unary operator operand _ => .operator operator.lexeme :: operand.heads

def Head.opening : Head → String
  | grouping => "(group "
  | operator lexeme => "(" ++ lexeme ++ " "

/-- A literal with nodes around it, written out. -/
def write : List Head → Atom → String
  | [], value => value.text
  | head :: heads, value => head.opening ++ write heads value ++ ")"

theorem nested_eq_write (e : Expr) : e.nested = write e.heads e.innermost := by
  induction e with
  | literal value line => exact nested_literal value line
  | grouping inner line ih =>
    rw [nested, ih]
    simp only [heads, innermost, write, Head.opening, String.append_assoc]
  | unary operator operand line ih =>
    rw [nested, ih]
    simp only [heads, innermost, write, Head.opening, String.append_assoc]

/-- The text of an expression is what its nodes and its literal are written as. -/
theorem text_eq_write (e : Expr) : e.text = write e.heads e.innermost := by
  rw [text, textFrom_eq_nested, nested_eq_write]
  simp

/-- A node that an expression without other operators may have. -/
def Head.Sign (h : Head) : Prop := ∀ lexeme, h = .operator lexeme → lexeme = "!" ∨ lexeme = "-"

theorem Head.Sign.cases {h : Head} (sign : h.Sign) :
    h = .grouping ∨ h = .operator "!" ∨ h = .operator "-" := by
  cases h with
  | grouping => exact .inl rfl
  | operator lexeme => exact .inr ((sign lexeme rfl).imp (congrArg _) (congrArg _))

/-- The second character of an opening tells the node. -/
theorem opening_append_inj {h h' : Head} {cs cs' : List Char} (sign : h.Sign) (sign' : h'.Sign)
    (same : h.opening.toList ++ cs = h'.opening.toList ++ cs') : h = h' ∧ cs = cs' := by
  rcases sign.cases with rfl | rfl | rfl <;> rcases sign'.cases with rfl | rfl | rfl <;>
    first | exact ⟨rfl, List.append_cancel_left same⟩ | simp [Head.opening] at same

theorem Head.exists_opening (h : Head) : ∃ cs, h.opening.toList = '(' :: cs := by
  cases h <;> simp [Head.opening]

theorem write_injective {hs hs' : List Head} {value value' : Atom} (signs : ∀ h ∈ hs, h.Sign)
    (signs' : ∀ h ∈ hs', h.Sign) (plain : ∀ s, value ≠ .string s) (plain' : ∀ s, value' ≠ .string s)
    (same : write hs value = write hs' value') : hs = hs' ∧ value = value' := by
  have opens (h : Head) (hs : List Head) (value : Atom) :
      ∃ cs, (write (h :: hs) value).toList = '(' :: cs := by
    obtain ⟨cs, opening⟩ := h.exists_opening
    simp [write, opening]
  induction hs generalizing hs' with
  | nil =>
    cases hs' with
    | nil => exact ⟨rfl, Atom.eq_of_text_eq plain plain' same⟩
    | cons h' hs' =>
      obtain ⟨cs, text⟩ := opens h' hs' value'
      rw [← same] at text
      exact absurd text (Atom.toList_text_ne plain cs)
  | cons h hs ih =>
    cases hs' with
    | nil =>
      obtain ⟨cs, text⟩ := opens h hs value
      rw [same] at text
      exact absurd text (Atom.toList_text_ne plain' cs)
    | cons h' hs' =>
      rw [write, write, String.append_left_inj, ← String.toList_inj, String.toList_append,
        String.toList_append] at same
      obtain ⟨rfl, within⟩ := opening_append_inj (signs h (.head _)) (signs' h' (.head _)) same
      obtain ⟨rfl, rfl⟩ := ih (fun x mem => signs x (.tail _ mem))
        (fun x mem => signs' x (.tail _ mem)) (String.toList_inj.1 within)
      exact ⟨rfl, rfl⟩

/-- An expression without strings, whose operators are written as one of the two signs. -/
structure Plain (e : Expr) : Prop where
  signs : ∀ h ∈ e.heads, h.Sign
  noString : ∀ s, e.innermost ≠ .string s

/-- Two expressions without strings have the same text just where they have the same groupings and
operators, in the same places, and the same literal: the same kind and the same value, the zeros
apart. -/
theorem text_eq_iff_of_plain {a b : Expr} (plain : a.Plain) (plain' : b.Plain) :
    a.text = b.text ↔ a.heads = b.heads ∧ a.innermost = b.innermost := by
  rw [text_eq_write, text_eq_write]
  constructor
  · exact write_injective plain.signs plain'.signs plain.noString plain'.noString
  · rintro ⟨nodes, literal⟩
    rw [nodes, literal]

/-- A zero with a minus in front is not written as the zero that has the sign itself. -/
theorem text_ne_of_minusZero :
    (signedZero false 1).Plain ∧ (grouping (literal (.number (.zero true)) 1) 1).Plain ∧
      (signedZero false 1).text ≠ (grouping (literal (.number (.zero true)) 1) 1).text := by
  have plain : (signedZero false 1).Plain :=
    ⟨by simp [signedZero, heads, Head.Sign], by simp [signedZero, innermost]⟩
  have plain' : (grouping (literal (.number (.zero true)) 1) 1).Plain :=
    ⟨by simp [heads, Head.Sign], by simp [innermost]⟩
  refine ⟨plain, plain', ?_⟩
  intro same
  obtain ⟨nodes, -⟩ := (text_eq_iff_of_plain plain plain').1 same
  simp [signedZero, heads] at nodes

end Expr
end ScriptFront
