import ScriptFront.Expr.Reader

/-!
# Reading under openers

Reading with some openers passed already. An opener at the cursor joins them, and any other token
has to be a literal, after which the openers are closed. These steps are all that reading does, and
every law about it is an induction on the tokens that are left.
-/
namespace ScriptFront

theorem Token.isOpener_iff (t : Token) :
    t.isOpener = true ↔ t.type = .bang ∨ t.type = .minus ∨ t.type = .leftParen := by
  simp [isOpener, or_assoc]

theorem Token.isOpener_of_sign {t : Token} (h : t.type = .bang ∨ t.type = .minus) :
    t.isOpener = true := by
  rw [isOpener_iff, ← or_assoc]
  exact .inl h

theorem Token.isOpener_of_leftParen {t : Token} (h : t.type = .leftParen) : t.isOpener = true := by
  simp [isOpener_iff, h]

namespace TokenCursor

theorem advance_cons {t : Token} (h : t.type ≠ .eof) (position : Nat) (rest : List Token)
    (ending : Token) :
    advance ⟨position, t :: rest, ending⟩ = ⟨position + 1, rest, ending⟩ := by
  simp [advance, atEnd, peek, h]

/-- A token of the type that is asked for is passed. -/
theorem consume_cons {t : Token} (h : t.type ≠ .eof) (message : String) (position : Nat)
    (rest : List Token) (ending : Token) :
    consume ⟨position, t :: rest, ending⟩ t.type message =
      (.ok t, ⟨position + 1, rest, ending⟩) := by
  rw [consume, advance_cons h]
  simp [check, atEnd, peek, h]

/-- Before any other token the cursor stays. -/
theorem consume_of_ne {c : TokenCursor} {type : TokenType} (h : c.peek.type ≠ type)
    (message : String) :
    c.consume type message = (.error ⟨c.peek, .missingToken type message⟩, c) := by
  simp [consume, check, h]

end TokenCursor

namespace Expr

/-- Reads one expression below openers that were passed before. -/
def readUnder (outer : List Token) (c : TokenCursor) : Outcome :=
  let openers := c.rest.takeWhile Token.isOpener
  match readLiteral (c.forward openers.length) with
  | (.error e, c) => (.error e, c)
  | (.ok e, c) => close (openers.reverse ++ outer) e c

theorem read_eq_readUnder (c : TokenCursor) : read c = readUnder [] c := by
  simp only [readUnder, List.append_nil]
  rfl

/-- An opener is passed and joins the others. -/
theorem readUnder_opener {t : Token} (h : t.isOpener = true) (outer : List Token) (position : Nat)
    (rest : List Token) (ending : Token) :
    readUnder outer ⟨position, t :: rest, ending⟩ =
      readUnder (t :: outer) ⟨position + 1, rest, ending⟩ := by
  have notEnd := Token.type_ne_eof_of_isOpener h
  simp [readUnder, h, TokenCursor.forward, TokenCursor.advance_cons notEnd]

/-- All openers are passed, and join those passed before. -/
theorem readUnder_openers {openers : List Token} (opens : ∀ t ∈ openers, t.isOpener = true)
    (outer : List Token) (position : Nat) (rest : List Token) (ending : Token) :
    readUnder outer ⟨position, openers ++ rest, ending⟩ =
      readUnder (openers.reverse ++ outer) ⟨position + openers.length, rest, ending⟩ := by
  induction openers generalizing outer position with
  | nil => rfl
  | cons t openers ih =>
    obtain ⟨opener, opens⟩ := List.forall_mem_cons.1 opens
    rw [List.cons_append, readUnder_opener opener, ih opens, List.reverse_cons, List.append_assoc,
      List.length_cons, Nat.add_assoc, Nat.add_comm 1]
    rfl

/-- Where no opener is seen a literal is read, and the openers around it are closed. -/
theorem readUnder_noOpener {c : TokenCursor} (h : c.peek.isOpener = false) (outer : List Token) :
    readUnder outer c =
      match readLiteral c with
      | (.error e, c) => (.error e, c)
      | (.ok e, c) => close outer e c := by
  have none : c.rest.takeWhile Token.isOpener = [] := by
    obtain ⟨position, rest, ending⟩ := c
    cases rest with
    | nil => rfl
    | cons t rest => exact List.takeWhile_cons_of_neg (by simpa [TokenCursor.peek] using h)
  simp [readUnder, none, TokenCursor.forward]

theorem readUnder_literal {t : Token} (h : t.isOpener = false) (outer : List Token)
    (position : Nat) (rest : List Token) (ending : Token) :
    readUnder outer ⟨position, t :: rest, ending⟩ =
      match readLiteral ⟨position, t :: rest, ending⟩ with
      | (.error e, c) => (.error e, c)
      | (.ok e, c) => close outer e c :=
  readUnder_noOpener (c := ⟨position, t :: rest, ending⟩) h outer

theorem readUnder_nil {ending : Token} (h : ending.type = .eof) (outer : List Token)
    (position : Nat) :
    readUnder outer ⟨position, [], ending⟩ =
      (.error (.parse ⟨ending, .expectedExpression⟩), ⟨position, [], ending⟩) := by
  simp [readUnder, TokenCursor.forward, readLiteral, TokenCursor.peek, atomOf?, h]

theorem type_ne_eof_of_atomOf? {t : Token} {found : Except LiteralError Atom}
    (h : atomOf? t = some found) : t.type ≠ .eof := by
  intro heof
  simp [atomOf?, heof] at h

theorem isOpener_of_atomOf? {t : Token} {found : Except LiteralError Atom}
    (h : atomOf? t = some found) : t.isOpener = false := by
  rw [← Bool.not_eq_true, Token.isOpener_iff]
  rintro (type | type | type) <;> simp [atomOf?, type] at h

theorem readLiteral_cons {t : Token} {value : Atom} (h : atomOf? t = some (.ok value))
    (position : Nat) (rest : List Token) (ending : Token) :
    readLiteral ⟨position, t :: rest, ending⟩ =
      (.ok (literal value t.line), ⟨position + 1, rest, ending⟩) := by
  simp [readLiteral, TokenCursor.peek, h, TokenCursor.advance_cons (type_ne_eof_of_atomOf? h)]

theorem readUnder_atom {t : Token} {value : Atom} (h : atomOf? t = some (.ok value))
    (outer : List Token) (position : Nat) (rest : List Token) (ending : Token) :
    readUnder outer ⟨position, t :: rest, ending⟩ =
      close outer (literal value t.line) ⟨position + 1, rest, ending⟩ := by
  rw [readUnder_literal (isOpener_of_atomOf? h), readLiteral_cons h]

/-- Where something is read behind no opener, a literal stands. -/
theorem exists_atom {t : Token} (noOpener : t.isOpener = false) {outer rest : List Token}
    {position : Nat} {ending : Token} {result : Expr} {c : TokenCursor}
    (h : readUnder outer ⟨position, t :: rest, ending⟩ = (.ok result, c)) :
    ∃ value, atomOf? t = some (.ok value) := by
  rw [readUnder_literal noOpener, readLiteral, TokenCursor.peek, List.head?_cons,
    Option.getD_some] at h
  cases found : atomOf? t with
  | none => simp [found] at h
  | some value =>
    cases value with
    | error e => simp [found] at h
    | ok value => exact ⟨value, rfl⟩

theorem close_grouping {opener closer : Token} (left : opener.type = .leftParen)
    (right : closer.type = .rightParen) (outer : List Token) (e : Expr) (position : Nat)
    (rest : List Token) (ending : Token) :
    close (opener :: outer) e ⟨position, closer :: rest, ending⟩ =
      close outer (grouping e opener.line) ⟨position + 1, rest, ending⟩ := by
  rw [close, if_pos left, ← right, TokenCursor.consume_cons (by simp [right])]

/-- A grouping that is closed has its right parenthesis at the cursor. -/
theorem exists_closer {opener : Token} (left : opener.type = .leftParen) {ending : Token}
    (last : ending.type = .eof) {outer : List Token} {e result : Expr} {position : Nat}
    {rest : List Token} {c : TokenCursor}
    (h : close (opener :: outer) e ⟨position, rest, ending⟩ = (.ok result, c)) :
    ∃ closer behind, rest = closer :: behind ∧ closer.type = .rightParen := by
  rw [close, if_pos left] at h
  by_cases right : (TokenCursor.peek ⟨position, rest, ending⟩).type = .rightParen
  · cases rest with
    | nil => simp [TokenCursor.peek, last] at right
    | cons closer behind => exact ⟨closer, behind, rfl, right⟩
  · rw [TokenCursor.consume_of_ne right] at h
    cases h

theorem close_unary {opener : Token} (h : opener.type ≠ .leftParen) (outer : List Token) (e : Expr)
    (c : TokenCursor) :
    close (opener :: outer) e c = close outer (unary opener e opener.line) c := by
  rw [close, if_neg h]

end Expr
end ScriptFront
