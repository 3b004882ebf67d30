import ScriptFront.Proofs.NearestDouble

/-!
# Equality as a partial equivalence

Tokens and expressions are compared by what they hold, and numbers by their quantities. This is
symmetric and transitive, also where integers stand beside doubles, because nothing is rounded. It
is reflexive but for the NaN: whatever holds one differs from its own copy, and nothing else does.
-/
namespace ScriptFront

namespace Binary64.Quantity

theorem equal_iff {a b : Quantity} : a.equal b = true ↔ a = b ∧ a ≠ .nan := by
  rw [equal, decide_eq_true_iff]

theorem equal_symm {a b : Quantity} (h : a.equal b = true) : b.equal a = true := by
  rw [equal_iff] at h ⊢
  obtain ⟨rfl, number⟩ := h
  exact ⟨rfl, number⟩

theorem equal_trans {a b c : Quantity} (h : a.equal b = true) (h' : b.equal c = true) :
    a.equal c = true := by
  rw [equal_iff] at h h' ⊢
  exact ⟨h.1.trans h'.1, h.2⟩

theorem ofInt_ne_nan (n : ℤ) : ofInt n ≠ .nan := by
  rw [ofInt]
  intro same
  cases same

end Binary64.Quantity

namespace Binary64

theorem quantity_eq_nan_iff {x : Binary64} : x.quantity = .nan ↔ x = nan := by
  cases x <;> simp [quantity]

/-- The quantity of an integer is that of the doubles which are the same number. -/
theorem quantity_eq_ofInt_iff {x : Binary64} {n : ℤ} : x.quantity = .ofInt n ↔
    ∃ negative rank, x = finite negative rank ∧ signedValue negative rank = n := by
  have pos : (unitsPerOne : ℚ) ≠ 0 := Nat.cast_ne_zero.2 unitsPerOne_pos.ne'
  cases x with
  | nan | infinity =>
    constructor
    · rw [quantity, Quantity.ofInt]
      intro same
      cases same
    · rintro ⟨_, _, same, -⟩
      cases same
  | finite negative rank =>
    have units (m : ℤ) : m = n * unitsPerOne ↔ (m / unitsPerOne : ℚ) = n := by
      rw [div_eq_iff pos]
      exact_mod_cast Iff.rfl
    rw [quantity, Quantity.ofInt, Quantity.units.injEq, units]
    constructor
    · intro same
      refine ⟨negative, rank, rfl, ?_⟩
      rw [← same, signedValue, value]
      split <;> push_cast <;> ring
    · rintro ⟨_, _, same, number⟩
      cases same
      rw [← number, signedValue, value]
      split <;> push_cast <;> ring

end Binary64

/-- `EqualBy quantity? a b`: both are numbers of one quantity, or they are the same and no number. -/
def EqualBy {α : Type} (quantity? : α → Option Binary64.Quantity) (a b : α) : Prop :=
  (a = b ∧ quantity? a = none) ∨
    ∃ q r, quantity? a = some q ∧ quantity? b = some r ∧ q.equal r = true

namespace EqualBy

variable {α : Type} {quantity? : α → Option Binary64.Quantity} {a b c : α}

theorem symm (h : EqualBy quantity? a b) : EqualBy quantity? b a := by
  rcases h with ⟨rfl, plain⟩ | ⟨q, r, left, right, same⟩
  · exact .inl ⟨rfl, plain⟩
  · exact .inr ⟨r, q, right, left, Binary64.Quantity.equal_symm same⟩

theorem trans (h : EqualBy quantity? a b) (h' : EqualBy quantity? b c) :
    EqualBy quantity? a c := by
  rcases h with ⟨rfl, plain⟩ | ⟨q, r, left, middle, same⟩
  · exact h'
  · rcases h' with ⟨rfl, plain⟩ | ⟨r', s, middle', right, same'⟩
    · exact .inr ⟨q, r, left, middle, same⟩
    · rw [middle, Option.some_inj] at middle'
      subst middle'
      exact .inr ⟨q, s, left, right, Binary64.Quantity.equal_trans same same'⟩

theorem self_iff : EqualBy quantity? a a ↔ quantity? a ≠ some .nan := by
  cases number : quantity? a with
  | none => simp [EqualBy, number]
  | some q => simp [EqualBy, number, Binary64.Quantity.equal_iff]

end EqualBy

namespace Literal

variable {a b c : Literal}

theorem equal_iff : a.equal b = true ↔ EqualBy quantity? a b := by
  cases a <;> cases b <;> simp [equal, quantity?, EqualBy]

theorem equal_symm (h : a.equal b = true) : b.equal a = true :=
  equal_iff.2 (equal_iff.1 h).symm

theorem equal_trans (h : a.equal b = true) (h' : b.equal c = true) : a.equal c = true :=
  equal_iff.2 ((equal_iff.1 h).trans (equal_iff.1 h'))

theorem equal_self_iff : a.equal a = true ↔ a ≠ .number .nan := by
  rw [equal_iff, EqualBy.self_iff]
  cases a with
  | null | text => simp [quantity?]
  | int n => simp [quantity?, Binary64.Quantity.ofInt_ne_nan]
  | number x => simp [quantity?, Binary64.quantity_eq_nan_iff]

/-- An integer and a double are equal if they are the same number. -/
theorem int_equal_number_iff {n : ℤ} {x : Binary64} : (int n).equal (number x) = true ↔
    ∃ negative rank, x = .finite negative rank ∧ Binary64.signedValue negative rank = n := by
  have notNan := Binary64.Quantity.ofInt_ne_nan n
  rw [← Binary64.quantity_eq_ofInt_iff]
  exact (Binary64.Quantity.equal_iff.trans (and_iff_left notNan)).trans eq_comm

end Literal

namespace Token

variable {t u v : Token}

theorem equal_iff : t.equal u = true ↔ t.type = u.type ∧ t.lexeme = u.lexeme ∧
    t.literal.equal u.literal = true ∧ t.line = u.line := by
  simp only [equal, Bool.and_eq_true, beq_iff_eq, and_assoc]

theorem equal_symm (h : t.equal u = true) : u.equal t = true := by
  rw [equal_iff] at h ⊢
  obtain ⟨type, lexeme, literals, line⟩ := h
  exact ⟨type.symm, lexeme.symm, Literal.equal_symm literals, line.symm⟩

theorem equal_trans (h : t.equal u = true) (h' : u.equal v = true) : t.equal v = true := by
  rw [equal_iff] at h h' ⊢
  obtain ⟨type, lexeme, literals, line⟩ := h
  obtain ⟨type', lexeme', literals', line'⟩ := h'
  exact ⟨type.trans type', lexeme.trans lexeme', Literal.equal_trans literals literals',
    line.trans line'⟩

def HoldsNan (t : Token) : Prop := t.literal = .number .nan

theorem equal_self_iff : t.equal t = true ↔ ¬t.HoldsNan := by
  rw [equal_iff, Literal.equal_self_iff, HoldsNan]
  simp

end Token

namespace Atom

variable {a b c : Atom}

def quantity? : Atom → Option Binary64.Quantity
  | number x => some x.quantity
  | _ => none

theorem equal_iff : a.equal b = true ↔ EqualBy quantity? a b := by
  cases a <;> cases b <;> simp [equal, quantity?, EqualBy]

theorem equal_symm (h : a.equal b = true) : b.equal a = true :=
  equal_iff.2 (equal_iff.1 h).symm

theorem equal_trans (h : a.equal b = true) (h' : b.equal c = true) : a.equal c = true :=
  equal_iff.2 ((equal_iff.1 h).trans (equal_iff.1 h'))

theorem equal_self_iff : a.equal a = true ↔ a ≠ number .nan := by
  rw [equal_iff, EqualBy.self_iff]
  cases a <;> simp [quantity?, Binary64.quantity_eq_nan_iff]

end Atom

namespace Expr

theorem equal_symm {a b : Expr} (h : a.equal b = true) : b.equal a = true := by
  induction a generalizing b with
  | literal value line =>
    cases b <;> simp only [equal, Bool.false_eq_true] at h
    exact Atom.equal_symm h
  | grouping inner line ih =>
    cases b <;> simp only [equal, Bool.false_eq_true] at h
    exact ih h
  | unary operator operand line ih =>
    cases b <;> simp only [equal, Bool.false_eq_true, Bool.and_eq_true] at h
    exact Bool.and_eq_true_iff.2 ⟨Token.equal_symm h.1, ih h.2⟩

theorem equal_trans {a b c : Expr} (h : a.equal b = true) (h' : b.equal c = true) :
    a.equal c = true := by
  induction a generalizing b c with
  | literal value line =>
    cases b <;> simp only [equal, Bool.false_eq_true] at h
    cases c <;> simp only [equal, Bool.false_eq_true] at h'
    exact Atom.equal_trans h h'
  | grouping inner line ih =>
    cases b <;> simp only [equal, Bool.false_eq_true] at h
    cases c <;> simp only [equal, Bool.false_eq_true] at h'
    exact ih h h'
  | unary operator operand line ih =>
    cases b <;> simp only [equal, Bool.false_eq_true, Bool.and_eq_true] at h
    cases c <;> simp only [equal, Bool.false_eq_true, Bool.and_eq_true] at h'
    exact Bool.and_eq_true_iff.2 ⟨Token.equal_trans h.1 h'.1, ih h.2 h'.2⟩

/-- The expression contains a NaN: its number is one, or an operator's token holds one. -/
def HoldsNan : Expr → Prop
  | literal value _ => value = .number .nan
  | grouping inner _ => inner.HoldsNan
  | unary operator operand _ => operator.HoldsNan ∨ operand.HoldsNan

theorem equal_self_iff {e : Expr} : e.equal e = true ↔ ¬e.HoldsNan := by
  induction e with
  | literal value line => exact Atom.equal_self_iff
  | grouping inner line ih => exact ih
  | unary operator operand line ih =>
    rw [equal, Bool.and_eq_true, Token.equal_self_iff, ih, HoldsNan, not_or]

end Expr

/-- Equality is symmetric and transitive, on tokens and on expressions, and whatever holds no NaN is
equal to itself. An integer and a double are equal if they are the same number, whether or not a
double could hold the integer. -/
theorem equal_partialEquivalence :
    (∀ t u : Token, t.equal u = true → u.equal t = true) ∧
    (∀ t u v : Token, t.equal u = true → u.equal v = true → t.equal v = true) ∧
    (∀ t : Token, t.equal t = true ↔ ¬t.HoldsNan) ∧
    (∀ a b : Expr, a.equal b = true → b.equal a = true) ∧
    (∀ a b c : Expr, a.equal b = true → b.equal c = true → a.equal c = true) ∧
    (∀ e : Expr, e.equal e = true ↔ ¬e.HoldsNan) ∧
    ∀ (n : ℤ) (x : Binary64), (Literal.int n).equal (.number x) = true ↔
      ∃ negative rank, x = .finite negative rank ∧ Binary64.signedValue negative rank = n := by
  exact ⟨fun _ _ => Token.equal_symm, fun _ _ _ => Token.equal_trans,
    fun _ => Token.equal_self_iff, fun _ _ => Expr.equal_symm, fun _ _ _ => Expr.equal_trans,
    fun _ => Expr.equal_self_iff, fun _ _ => Literal.int_equal_number_iff⟩

/-- A sign that holds a literal. -/
def signHolding (literal : Literal) : Token := ⟨.minus, "-", literal, 1⟩

/-- Such a sign in front of a zero. -/
def signedBy (literal : Literal) (negative : Bool) (line : Int) : Expr :=
  .unary (signHolding literal) (.literal (.number (.zero negative)) line) line

/-- An integer, the double that is the same number, and the integer again, with zeros of both signs
behind them. -/
theorem equal_partialEquivalence_signedBy :
    let n : Literal := .int 9007199254740992
    let x : Literal := .number (.ofBits 0x4340000000000000)
    ((signHolding n).equal (signHolding x) = true ∧ (signHolding x).equal (signHolding n) = true ∧
      (signHolding n).equal (signHolding n) = true ∧ ¬(signHolding n).HoldsNan) ∧
    let a := signedBy n false 1
    let b := signedBy x true 2
    let c := signedBy n true 3
    a.equal b = true ∧ b.equal c = true ∧ b.equal a = true ∧ a.equal c = true ∧
      ¬a.HoldsNan ∧ a.equal a = true := by
  intro n x
  have signs : (signHolding n).equal (signHolding x) = true := by decide +kernel
  have first : (signedBy n false 1).equal (signedBy x true 2) = true := by decide +kernel
  have second : (signedBy x true 2).equal (signedBy n true 3) = true := by decide +kernel
  obtain ⟨tokenSymm, tokenTrans, tokenSelf, symm, trans, self, -⟩ := equal_partialEquivalence
  have back := tokenSymm _ _ signs
  have sameSign := tokenTrans _ _ _ signs back
  have same := trans _ _ _ first (symm _ _ first)
  exact ⟨⟨signs, back, sameSign, (tokenSelf _).1 sameSign⟩,
    first, second, symm _ _ first, trans _ _ _ first second, (self _).1 same, same⟩

-- The next integer is no double, and is not rounded to one.
example : (Literal.int 9007199254740993).equal (.number (.ofBits 0x4340000000000000)) = false := by
  decide +kernel

end ScriptFront
