import ScriptFront.Proofs.Layout

/-!
# The lines of operators

Trees are compared without the lines of their nodes, but the operator of a unary node is compared as
a token, with its line. So the trees of two scripts that differ in layout only are equal just where
every operator stands on the same line in both.
-/
namespace ScriptFront

namespace Binary64

theorem ofRank_quantity_ne_nan (negative : Bool) (rank : Nat) :
    (ofRank negative rank).quantity ≠ .nan := by
  unfold ofRank
  split <;> simp [quantity]

end Binary64

/-- The literal of a lexeme is equal to itself: no numeral denotes the NaN. -/
theorem Lexeme.equal_self {l : List Char} {type : TokenType} {literal : Literal}
    (h : Lexeme l type literal) : literal.equal literal = true := by
  cases h with
  | fixed | keyword | identifier => rfl
  | string => exact beq_self_eq_true _
  | whole | fraction =>
    have number := Binary64.ofRank_quantity_ne_nan false
    simp [Literal.equal, Literal.quantity?, Binary64.Quantity.equal, Binary64.ofNumeral,
      Binary64.ofRatio, number]

theorem equal_self_of_mem_scan {source : Source} {filename : String} {t : Token}
    (h : t ∈ (scan source filename).tokens) : t.literal.equal t.literal = true := by
  rw [scan_eq] at h
  rcases List.mem_append.1 h with found | last
  · exact (lexeme_of_mem_items found).equal_self
  · rw [List.mem_singleton.1 last]
    rfl

namespace Expr

/-- The lines of the operators, from the outside in. -/
def operatorLines : Expr → List Int
  | literal _ _ => []
  | grouping inner _ => inner.operatorLines
  | unary operator operand _ => operator.line :: operand.operatorLines

/-- Trees that differ in lines only are equal where their operators are on the same lines, if they
hold no value that differs from itself. -/
theorem equal_iff_operatorLines {e e' : Expr} (same : e.lineless = e'.lineless)
    (self : e.equal e = true) : e.equal e' = true ↔ e.operatorLines = e'.operatorLines := by
  induction e generalizing e' with
  | literal value line =>
    cases e' <;> simp only [lineless, literal.injEq, reduceCtorEq] at same
    obtain ⟨rfl, -⟩ := same
    exact iff_of_true self rfl
  | grouping inner line ih =>
    cases e' <;> simp only [lineless, grouping.injEq, reduceCtorEq] at same
    exact ih same.1 self
  | unary operator operand line ih =>
    cases e' <;> simp only [lineless, unary.injEq, reduceCtorEq] at same
    rename_i operator' operand' line'
    obtain ⟨operators, operands, -⟩ := same
    obtain ⟨type, lexeme, literal⟩ := Token.lineless_eq_iff.1 operators
    simp only [equal, Token.equal, Bool.and_eq_true, beq_iff_eq] at self ⊢
    rw [← type, ← lexeme, ← literal, ih operands self.2, operatorLines, operatorLines,
      List.cons.injEq]
    constructor
    · rintro ⟨⟨-, lines⟩, others⟩
      exact ⟨lines, others⟩
    · rintro ⟨lines, others⟩
      exact ⟨⟨⟨⟨rfl, rfl⟩, self.1.1.2⟩, lines⟩, others⟩

theorem equal_self_foldr_around {openers : List Token}
    (held : ∀ t ∈ openers, t.literal.equal t.literal = true) {e : Expr} (self : e.equal e = true) :
    (openers.foldr around e).equal (openers.foldr around e) = true := by
  induction openers with
  | nil => exact self
  | cons opener openers ih =>
    obtain ⟨first, others⟩ := List.forall_mem_cons.1 held
    rw [List.foldr_cons, around]
    split
    · exact ih others
    · simp [equal, Token.equal, first, ih others]

theorem equal_self_of_read {ts : List Token} (carried : ∀ t ∈ ts, t.Carries)
    (held : ∀ t ∈ ts, t.literal.equal t.literal = true) {start : Nat} {e : Expr}
    (h : (read (.place ts start)).1 = .ok e) : e.equal e = true := by
  obtain ⟨passed, behind, split, -, yields⟩ := yields_of_read_place ts start
  have inside : ∀ t ∈ passed, t ∈ ts := by
    intro t mem
    apply List.mem_of_mem_drop (i := start)
    rw [split]
    exact List.mem_append_left _ mem
  rw [h] at yields
  cases yields with
  | @tree openers closers value _ atom chain atomOf even =>
    apply equal_self_foldr_around
    · intro t mem
      exact held t (inside t (List.mem_append_left _ mem))
    · have mem : value ∈ ts := inside value (by simp)
      have self := held value mem
      cases denotes_of_atomOf? (carried value mem) atomOf with
      | number type carried =>
        rw [carried] at self
        exact self
      | string => exact beq_self_eq_true _
      | true | false | nil => rfl

end Expr

/-- Two scripts that differ in layout only have trees that differ in lines only. They are equal just
where every operator stands on the same line in both scripts. -/
theorem equal_of_layouts_iff {source source' : Source} {filename filename' : String}
    (same : (scan source filename).tokens.map Token.lineless =
      (scan source' filename').tokens.map Token.lineless) {e : Expr}
    (h : Expr.ofTokens (scan source filename).tokens = .ok e) :
    ∃ e', Expr.ofTokens (scan source' filename').tokens = .ok e' ∧ e.lineless = e'.lineless ∧
      (e.equal e' = true ↔ e.operatorLines = e'.operatorLines) := by
  have self : e.equal e = true :=
    Expr.equal_self_of_read (fun _ => carries_of_mem_scan) (fun _ => equal_self_of_mem_scan) h
  obtain ⟨-, -, -, results⟩ := Expr.read_of_lineless_eq same 0
  have tree : (Expr.read (.place (scan source filename).tokens 0)).1 = .ok e := h
  rw [tree] at results
  generalize found : (Expr.read (.place (scan source' filename').tokens 0)).1 = result at results
  cases Expr.sameButLines_of_lineless results with
  | @tree _ e' nodes text => exact ⟨e', found, nodes, Expr.equal_iff_operatorLines nodes self⟩

/-- A grouping under an operator, with each node on a line of its own. -/
def negatedNil (operator grouping value : Int) : Expr :=
  .unary ⟨.bang, "!", .null, operator⟩ (.grouping (.literal .nil value) grouping) operator

/-- What stands behind the operator may move to other lines. -/
theorem equal_of_movedOperand :
    (scan (.text "!(nil)") "").tokens.map Token.lineless =
      (scan (.text "!// not\n(\nnil)") "").tokens.map Token.lineless ∧
    Expr.ofTokens (scan (.text "!(nil)") "").tokens = .ok (negatedNil 1 1 1) ∧
    Expr.ofTokens (scan (.text "!// not\n(\nnil)") "").tokens = .ok (negatedNil 1 2 3) ∧
    (negatedNil 1 1 1).equal (negatedNil 1 2 3) = true := by
  have same : (scan (.text "!(nil)") "").tokens.map Token.lineless =
      (scan (.text "!// not\n(\nnil)") "").tokens.map Token.lineless := by
    decide +kernel
  have tree : Expr.ofTokens (scan (.text "!(nil)") "").tokens = .ok (negatedNil 1 1 1) := by
    decide +kernel
  have moved : Expr.ofTokens (scan (.text "!// not\n(\nnil)") "").tokens =
      .ok (negatedNil 1 2 3) := by
    decide +kernel
  obtain ⟨e', found, -, equal⟩ := equal_of_layouts_iff same tree
  rw [moved] at found
  obtain rfl := Except.ok.inj found
  exact ⟨same, tree, moved, equal.2 rfl⟩

/-- With the whole script one line further down its tree is another one. -/
theorem not_equal_of_movedOperator :
    (scan (.text "!(nil)") "").tokens.map Token.lineless =
      (scan (.text "\n!(nil)") "").tokens.map Token.lineless ∧
    Expr.ofTokens (scan (.text "!(nil)") "").tokens = .ok (negatedNil 1 1 1) ∧
    Expr.ofTokens (scan (.text "\n!(nil)") "").tokens = .ok (negatedNil 2 2 2) ∧
    (negatedNil 1 1 1).equal (negatedNil 2 2 2) = false := by
  decide +kernel

end ScriptFront
