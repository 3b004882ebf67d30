import Mathlib.Data.List.TakeWhile
import ScriptFront.Proofs.Reader
import ScriptFront.Proofs.Stretch

/-!
# What a reading yields

All that reading does, as a relation between the tokens it passes, the token it stops at and what
comes of it. The reader and the relation agree on every list of tokens, so laws about readings are
case distinctions over the relation and need not look at the reader.
-/
namespace ScriptFront

def countType (type : TokenType) (ts : List Token) : Nat := ts.countP (·.type == type)

@[simp] theorem countType_nil (type : TokenType) : countType type [] = 0 := rfl

theorem countType_cons (type : TokenType) (t : Token) (ts : List Token) :
    countType type (t :: ts) = countType type ts + if t.type = type then 1 else 0 := by
  simp [countType, List.countP_cons]

theorem countType_reverse (type : TokenType) (ts : List Token) :
    countType type ts.reverse = countType type ts :=
  List.countP_reverse

/-- `Chain openers closers`: all that stands before a value and behind it in an expression, except
that some right parentheses may be missing. -/
structure Chain (openers closers : List Token) : Prop where
  opens : ∀ t ∈ openers, t.isOpener = true
  closes : ∀ t ∈ closers, t.type = .rightParen

namespace Expr

/-- The node that an opener makes around an expression. -/
def around (opener : Token) (e : Expr) : Expr :=
  if opener.type = .leftParen then grouping e opener.line else unary opener e opener.line

/-- `Yields passed next result`: the reader passes the tokens `passed`, stops before the token `next`
and ends with `result`. That is a tree where every left parenthesis has its right one; or else a
literal is not what its token asks for, no value follows the openers, or a right parenthesis is
missing. -/
inductive Yields : List Token → Token → Except ReadError Expr → Prop
  | tree {openers closers : List Token} {value next : Token} {atom : Atom}
      (chain : Chain openers closers) (held : atomOf? value = some (.ok atom))
      (even : closers.length = countType .leftParen openers) :
      Yields (openers ++ value :: closers) next
        (.ok (openers.foldr around (literal atom value.line)))
  | badLiteral {openers : List Token} {value next : Token} {e : LiteralError}
      (opens : ∀ t ∈ openers, t.isOpener = true) (held : atomOf? value = some (.error e)) :
      Yields (openers ++ [value]) next (.error (.literal e))
  | noValue {openers : List Token} {next : Token} (opens : ∀ t ∈ openers, t.isOpener = true)
      (noOpener : next.isOpener = false) (noAtom : atomOf? next = none) :
      Yields openers next (.error (.parse ⟨next, .expectedExpression⟩))
  | noCloser {openers closers : List Token} {value next : Token} {atom : Atom}
      (chain : Chain openers closers) (held : atomOf? value = some (.ok atom))
      (few : closers.length < countType .leftParen openers) (other : next.type ≠ .rightParen) :
      Yields (openers ++ value :: closers) next
        (.error (.parse ⟨next, .missingToken .rightParen closingMessage⟩))

/-- Closing openers takes a right parenthesis for every left one, and fails where one is missing. -/
theorem close_closers {closers : List Token} (closes : ∀ t ∈ closers, t.type = .rightParen)
    (outer : List Token) (e : Expr) (position : Nat) (behind : List Token) (ending : Token) :
    let c : TokenCursor := ⟨position + closers.length, behind, ending⟩
    (closers.length = countType .leftParen outer →
      close outer e ⟨position, closers ++ behind, ending⟩ =
        (.ok (outer.foldl (fun inner opener => around opener inner) e), c)) ∧
    (closers.length < countType .leftParen outer → c.peek.type ≠ .rightParen →
      close outer e ⟨position, closers ++ behind, ending⟩ =
        (.error (.parse ⟨c.peek, .missingToken .rightParen closingMessage⟩), c)) := by
  -- The openers are closed from the inside out, and a closer goes with every left parenthesis.
  induction outer generalizing closers e position with
  | nil =>
    constructor
    · intro even
      obtain rfl := List.eq_nil_of_length_eq_zero even
      rfl
    · intro few
      exact absurd few (Nat.not_lt_zero _)
  | cons opener outer ih =>
    rw [countType_cons, List.foldl_cons, around]
    by_cases left : opener.type = .leftParen
    · rw [if_pos left, if_pos left]
      cases closers with
      | nil =>
        constructor
        · intro even
          cases even
        · intro _ other
          have stays := TokenCursor.consume_of_ne other closingMessage
          rw [List.length_nil, Nat.add_zero] at stays ⊢
          rw [close, if_pos left, List.nil_append, stays]
      | cons closer closers =>
        obtain ⟨right, closes⟩ := List.forall_mem_cons.1 closes
        rw [List.cons_append, close_grouping left right, List.length_cons, Nat.add_right_cancel_iff,
          Nat.add_lt_add_iff_right, Nat.add_comm closers.length, ← Nat.add_assoc]
        exact ih closes _ _
    · rw [if_neg left, if_neg left, close_unary left]
      exact ih closes _ _

/-- Where the tokens in front of the reader are such as yield a result, it ends with that result. -/
theorem read_of_yields {passed behind : List Token} {position : Nat} {ending : Token}
    {result : Except ReadError Expr}
    (h : Yields passed (TokenCursor.peek ⟨position + passed.length, behind, ending⟩) result) :
    read ⟨position, passed ++ behind, ending⟩ =
      (result, ⟨position + passed.length, behind, ending⟩) := by
  have behindValue (openers closers : List Token) (value : Token) :
      position + (openers ++ value :: closers).length =
        position + openers.length + 1 + closers.length := by
    rw [List.length_append, List.length_cons]
    omega
  generalize seen : TokenCursor.peek _ = next at h
  rw [read_eq_readUnder]
  cases h with
  | @tree openers closers value _ atom chain held even =>
    rw [← countType_reverse] at even
    rw [List.append_assoc, List.cons_append, readUnder_openers chain.opens, List.append_nil,
      readUnder_atom held, (close_closers chain.closes _ _ _ behind ending).1 even,
      List.foldl_reverse, behindValue]
  | @badLiteral openers value _ e opens held =>
    rw [List.append_assoc, List.singleton_append, readUnder_openers opens,
      readUnder_literal (isOpener_of_atomOf? held), readLiteral, TokenCursor.peek, List.head?_cons,
      Option.getD_some, held, behindValue]
    exact congrArg _ (TokenCursor.advance_cons (type_ne_eof_of_atomOf? held) _ _ _)
  | noValue opens noOpener noAtom =>
    rw [← seen] at noOpener noAtom ⊢
    rw [readUnder_openers opens, readUnder_noOpener noOpener, readLiteral, noAtom]
  | @noCloser openers closers value _ atom chain held few other =>
    rw [← countType_reverse] at few
    rw [behindValue] at seen
    rw [← seen] at other ⊢
    rw [List.append_assoc, List.cons_append, readUnder_openers chain.opens, List.append_nil,
      readUnder_atom held, (close_closers chain.closes _ _ _ behind ending).2 few other,
      behindValue]

/-- A result that comes of no tokens leaves the reader where it is. -/
theorem read_of_yields_nil {c : TokenCursor} {result : Except ReadError Expr}
    (h : Yields [] c.peek result) : read c = (result, c) := by
  obtain ⟨position, behind, ending⟩ := c
  rw [← List.nil_append behind]
  exact read_of_yields h

/-- In front of any tokens stand right parentheses, as many as are asked for or fewer with another
token behind them. -/
theorem exists_closers {ending : Token} (last : ending.type = .eof) (n : Nat) (rest : List Token) :
    ∃ closers behind, rest = closers ++ behind ∧ (∀ t ∈ closers, t.type = .rightParen) ∧
      (closers.length = n ∨
        closers.length < n ∧ (behind.head?.getD ending).type ≠ .rightParen) := by
  induction n generalizing rest with
  | zero => exact ⟨[], rest, rfl, by simp, .inl rfl⟩
  | succ n ih =>
    by_cases right : (rest.head?.getD ending).type = .rightParen
    · cases rest with
      | nil => simp [last] at right
      | cons t rest =>
        obtain ⟨closers, behind, rfl, closes, count⟩ := ih rest
        refine ⟨t :: closers, behind, rfl, List.forall_mem_cons.2 ⟨right, closes⟩, ?_⟩
        rwa [List.length_cons, Nat.add_right_cancel_iff, Nat.add_lt_add_iff_right]
    · exact ⟨[], rest, rfl, by simp, .inr ⟨Nat.succ_pos n, right⟩⟩

/-- In front of any tokens stand openers, with another token behind them. -/
theorem exists_openers (rest : List Token) :
    ∃ openers behind, rest = openers ++ behind ∧ (∀ t ∈ openers, t.isOpener = true) ∧
      ∀ t ∈ behind.head?, t.isOpener = false :=
  ⟨rest.takeWhile Token.isOpener, rest.dropWhile Token.isOpener,
    List.takeWhile_append_dropWhile.symm, fun _ mem => List.mem_takeWhile_imp mem,
    fun _ mem => eq_false_of_head?_dropWhile mem⟩

theorem exists_yields {ending : Token} (last : ending.type = .eof) (rest : List Token) :
    ∃ passed behind result, rest = passed ++ behind ∧
      Yields passed (behind.head?.getD ending) result := by
  obtain ⟨openers, behind, rfl, opens, stops⟩ := exists_openers rest
  cases behind with
  | nil =>
    have noOpener : ending.isOpener = false := by simp [Token.isOpener, last]
    have noAtom : atomOf? ending = none := by simp [atomOf?, last]
    exact ⟨openers, [], _, rfl, .noValue opens noOpener noAtom⟩
  | cons t tail =>
    cases held : atomOf? t with
    | none => exact ⟨openers, t :: tail, _, rfl, .noValue opens (stops t rfl) held⟩
    | some found =>
      cases found with
      | error e => exact ⟨openers ++ [t], tail, _, by simp, .badLiteral opens held⟩
      | ok atom =>
        obtain ⟨closers, behind, rfl, closes, even | ⟨few, other⟩⟩ :=
          exists_closers last (countType .leftParen openers) tail
        · exact ⟨openers ++ t :: closers, behind, _, by simp, .tree ⟨opens, closes⟩ held even⟩
        · exact ⟨openers ++ t :: closers, behind, _, by simp,
            .noCloser ⟨opens, closes⟩ held few other⟩

theorem yields_of_read {c : TokenCursor} (last : c.ending.type = .eof) :
    ∃ passed behind, c.rest = passed ++ behind ∧
      (read c).2 = ⟨c.position + passed.length, behind, c.ending⟩ ∧
      Yields passed (read c).2.peek (read c).1 := by
  obtain ⟨position, rest, ending⟩ := c
  obtain ⟨passed, behind, result, rfl, yields⟩ := exists_yields last rest
  refine ⟨passed, behind, rfl, ?_⟩
  rw [read_of_yields yields]
  exact ⟨rfl, yields⟩

theorem place_behind {ts : List Token} {start : Nat} {passed behind : List Token}
    (split : ts.drop start = passed ++ behind) :
    TokenCursor.mk (start + passed.length) behind (TokenCursor.endingOf ts) =
      .place ts (start + passed.length) := by
  rw [TokenCursor.place, drop_of_drop split]

/-- From a place of a list the reader goes on to a place of the list. -/
theorem yields_of_read_place (ts : List Token) (start : Nat) :
    ∃ passed behind, ts.drop start = passed ++ behind ∧
      (read (.place ts start)).2 = .place ts (start + passed.length) ∧
      Yields passed (read (.place ts start)).2.peek (read (.place ts start)).1 := by
  obtain ⟨passed, behind, split, place, yields⟩ := yields_of_read (c := .place ts start) rfl
  exact ⟨passed, behind, split, place.trans (place_behind split), yields⟩

end Expr
end ScriptFront
