import ScriptFront.Proofs.IntegerValue
import ScriptFront.Proofs.Reader
import ScriptFront.Proofs.Stretch

/-!
# The grammar of expressions

Expressions as a language of tokens, with the tree that each derivation stands for. Reading accepts
exactly that language, at every place of a list of tokens and whatever follows, and the tree that is
read is the one that is derived.
-/
namespace ScriptFront

/-- The literals of the grammar: a token and the value it stands for. -/
inductive Token.Denotes : Token → Atom → Prop
  | number {t : Token} {x : Binary64} (type : t.type = .number) (value : t.literal = .number x) :
      Denotes t (.number x)
  | string {t : Token} {s : String} (type : t.type = .string) (value : t.literal = .text s) :
      Denotes t (.string s)
  | true {t : Token} (type : t.type = .keyword .trueWord) : Denotes t (.boolean true)
  | false {t : Token} (type : t.type = .keyword .falseWord) : Denotes t (.boolean false)
  | nil {t : Token} (type : t.type = .keyword .nilWord) : Denotes t .nil

/-- What a token gives for a literal: the value it stands for in the grammar, or the double that its
integer is rounded to, where that is a finite one. -/
inductive Token.Gives : Token → Atom → Prop
  | literal {t : Token} {value : Atom} (denotes : t.Denotes value) : Gives t value
  | integer {t : Token} {n : Int} {negative : Bool} {rank : Fin rankBound}
      (type : t.type = .number) (value : t.literal = .int n)
      (rounded : Binary64.Rounded n (.finite negative rank)) :
      Gives t (.number (.finite negative rank))

/-- `Derives ts e`: the tokens `ts` are an expression, and `e` is its tree. The lines of the nodes
are left open. -/
inductive Derives : List Token → Expr → Prop
  | literal {t : Token} {value : Atom} {line : Int} (denotes : t.Denotes value) :
      Derives [t] (.literal value line)
  | unary {operator : Token} {ts : List Token} {e : Expr} {line : Int}
      (sign : operator.type = .bang ∨ operator.type = .minus) (operand : Derives ts e) :
      Derives (operator :: ts) (.unary operator e line)
  | grouping {left right : Token} {ts : List Token} {e : Expr} {line : Int}
      (opens : left.type = .leftParen) (inner : Derives ts e) (closes : right.type = .rightParen) :
      Derives (left :: (ts ++ [right])) (.grouping e line)

/-- A token that carries the literal its type promises. -/
structure Token.Carries (t : Token) : Prop where
  number : t.type = .number → ∃ x, t.literal = .number x
  string : t.type = .string → ∃ s, t.literal = .text s

namespace Expr

/-- The tree with all its nodes on line zero. -/
def withoutLines : Expr → Expr
  | literal value _ => literal value 0
  | grouping inner _ => grouping inner.withoutLines 0
  | unary operator operand _ => unary operator operand.withoutLines 0

/-- Reading `ts` from place `start` ends at place `stop` with the tree `e`, up to lines. -/
def ReadAt (ts : List Token) (start stop : Nat) (e : Expr) : Prop :=
  ∃ found, read (.place ts start) = (.ok found, .place ts stop) ∧
    found.withoutLines = e.withoutLines

theorem ReadAt.unique {ts : List Token} {start stop stop' : Nat} {e e' : Expr}
    (h : ReadAt ts start stop e) (h' : ReadAt ts start stop' e') :
    stop' = stop ∧ e'.withoutLines = e.withoutLines := by
  obtain ⟨found, ran, same⟩ := h
  obtain ⟨found', ran', same'⟩ := h'
  rw [ran, Prod.mk.injEq, Except.ok.injEq] at ran'
  obtain ⟨rfl, places⟩ := ran'
  constructor
  · exact (congrArg TokenCursor.position places).symm
  · rw [← same, ← same']

end Expr

theorem Derives.of_withoutLines {ts : List Token} {e e' : Expr} (h : Derives ts e)
    (same : e.withoutLines = e'.withoutLines) : Derives ts e' := by
  induction h generalizing e' with
  | literal denotes =>
    cases e' <;> simp only [Expr.withoutLines, Expr.literal.injEq, reduceCtorEq] at same
    obtain ⟨rfl, -⟩ := same
    exact .literal denotes
  | unary sign _ ih =>
    cases e' <;> simp only [Expr.withoutLines, Expr.unary.injEq, reduceCtorEq] at same
    obtain ⟨rfl, operand, -⟩ := same
    exact .unary sign (ih operand)
  | grouping opens _ closes ih =>
    cases e' <;> simp only [Expr.withoutLines, Expr.grouping.injEq, reduceCtorEq] at same
    exact .grouping opens (ih same.1) closes

namespace Expr

/-- The reader takes a token for what it gives. -/
theorem atomOf?_of_gives {t : Token} {value : Atom} (h : t.Gives value) :
    atomOf? t = some (.ok value) := by
  cases h with
  | literal denotes =>
    cases denotes with
    | number type held | string type held =>
      rw [atomOf?, type, held]
      rfl
    | true type | false type | nil type => rw [atomOf?, type]
  | integer type held rounded =>
    have number := Binary64.ofInt?_eq_some_iff.2 ⟨_, _, rfl, rounded⟩
    rw [atomOf?, type, Literal.toNumber_eq_ok_iff.2 (.inr ⟨_, held, number⟩)]
    rfl

/-- The reader takes a token for nothing else. -/
theorem gives_of_atomOf? {t : Token} {value : Atom} (h : atomOf? t = some (.ok value)) :
    t.Gives value := by
  unfold atomOf? at h
  split at h
  · next type =>
    cases number : t.literal.toNumber with
    | error e =>
      rw [number] at h
      cases h
    | ok x =>
      rw [number] at h
      cases h
      rcases Literal.toNumber_eq_ok_iff.1 number with held | ⟨n, held, found⟩
      · exact .literal (.number type held)
      · obtain ⟨negative, rank, rfl, rounded⟩ := Binary64.ofInt?_eq_some_iff.1 found
        exact .integer type held rounded
  · next type =>
    cases held : t.literal with
    | text s =>
      rw [held] at h
      cases h
      exact .literal (.string type held)
    | null | int | number => simp [held, textOf, Except.map] at h
  · next type => cases h; exact .literal (.true type)
  · next type => cases h; exact .literal (.false type)
  · next type => cases h; exact .literal (.nil type)
  · cases h

/-- Where a token carries what it promises, it gives a literal of the grammar. -/
theorem denotes_of_atomOf? {t : Token} (carries : t.Carries) {value : Atom}
    (h : atomOf? t = some (.ok value)) : t.Denotes value := by
  cases gives_of_atomOf? h with
  | literal denotes => exact denotes
  | integer type held =>
    obtain ⟨x, carried⟩ := carries.number type
    rw [held] at carried
    cases carried

/-- An expression at the cursor is read, and the openers around it are closed behind it. -/
theorem readUnder_of_derives {ts : List Token} {e : Expr} (h : Derives ts e) (ending : Token)
    (outer : List Token) (position : Nat) (behind : List Token) :
    ∃ found, found.withoutLines = e.withoutLines ∧
      readUnder outer ⟨position, ts ++ behind, ending⟩ =
        close outer found ⟨position + ts.length, behind, ending⟩ := by
  induction h generalizing outer position behind with
  | @literal t value _ denotes =>
    refine ⟨literal value t.line, rfl, ?_⟩
    exact readUnder_atom (atomOf?_of_gives (.literal denotes)) outer position behind ending
  | @unary operator ts e _ sign _ ih =>
    have opener : operator.isOpener = true := Token.isOpener_of_sign sign
    have noParen : operator.type ≠ .leftParen := by
      rcases sign with sign | sign <;> simp [sign]
    obtain ⟨found, same, ran⟩ := ih (operator :: outer) (position + 1) behind
    refine ⟨unary operator found operator.line, by simp [withoutLines, same], ?_⟩
    calc readUnder outer ⟨position, operator :: (ts ++ behind), ending⟩
        = readUnder (operator :: outer) ⟨position + 1, ts ++ behind, ending⟩ :=
          readUnder_opener opener outer position _ ending
      _ = close (operator :: outer) found ⟨position + 1 + ts.length, behind, ending⟩ := ran
      _ = close outer (unary operator found operator.line)
            ⟨position + (operator :: ts).length, behind, ending⟩ := by
          rw [close_unary noParen, List.length_cons, Nat.add_assoc, Nat.add_comm 1]
  | @grouping left right ts e _ opens _ closes ih =>
    have opener : left.isOpener = true := Token.isOpener_of_leftParen opens
    obtain ⟨found, same, ran⟩ := ih (left :: outer) (position + 1) (right :: behind)
    refine ⟨grouping found left.line, by simp [withoutLines, same], ?_⟩
    calc readUnder outer ⟨position, left :: (ts ++ [right]) ++ behind, ending⟩
        = readUnder (left :: outer) ⟨position + 1, ts ++ right :: behind, ending⟩ := by
          rw [List.cons_append, readUnder_opener opener, List.append_assoc]
          rfl
      _ = close (left :: outer) found ⟨position + 1 + ts.length, right :: behind, ending⟩ := ran
      _ = close outer (grouping found left.line)
            ⟨position + (left :: (ts ++ [right])).length, behind, ending⟩ := by
          rw [close_grouping opens closes, List.length_cons, List.length_append,
            List.length_singleton]
          congr 2
          omega

/-- What is read is an expression of the grammar, and closing the openers around it is all that is
left to do behind it. -/
theorem exists_derives_of_readUnder {ending : Token} (last : ending.type = .eof)
    {rest : List Token} (carried : ∀ t ∈ rest, t.Carries) {outer : List Token} {position : Nat}
    {result : Expr} {c : TokenCursor}
    (h : readUnder outer ⟨position, rest, ending⟩ = (.ok result, c)) :
    ∃ ts behind e, rest = ts ++ behind ∧ Derives ts e ∧
      close outer e ⟨position + ts.length, behind, ending⟩ = (.ok result, c) := by
  induction rest generalizing outer position with
  | nil =>
    rw [readUnder_nil last] at h
    cases h
  | cons t rest ih =>
    obtain ⟨carries, carried⟩ := List.forall_mem_cons.mp carried
    by_cases opener : t.isOpener = true
    · -- The opener waits on the stack while the expression behind it is read.
      rw [readUnder_opener opener] at h
      obtain ⟨ts, behind, e, rfl, derived, closed⟩ := ih carried h
      rw [Token.isOpener_iff] at opener
      by_cases left : t.type = .leftParen
      · obtain ⟨closer, behind, rfl, right⟩ := exists_closer left last closed
        rw [close_grouping left right] at closed
        refine ⟨t :: (ts ++ [closer]), behind, grouping e t.line, by simp, ?_, ?_⟩
        · exact .grouping left derived right
        · rw [← closed]
          congr 2
          simp only [List.length_cons, List.length_append, List.length_nil]
          omega
      · have sign : t.type = .bang ∨ t.type = .minus := by
          simpa [left] using opener
        refine ⟨t :: ts, behind, unary t e t.line, rfl, .unary sign derived, ?_⟩
        rw [← closed, close_unary left, List.length_cons, Nat.add_assoc, Nat.add_comm 1]
    · rw [Bool.not_eq_true] at opener
      obtain ⟨value, atom⟩ := exists_atom opener h
      rw [readUnder_atom atom] at h
      exact ⟨[t], rest, literal value t.line, rfl, .literal (denotes_of_atomOf? carries atom), h⟩

theorem read_place (ts : List Token) (n : Nat) :
    read (.place ts n) = readUnder [] ⟨n, ts.drop n, TokenCursor.endingOf ts⟩ :=
  read_eq_readUnder _

/-- Every expression of the grammar is read where it stands, whatever follows. -/
theorem readAt_of_derives {ts : List Token} {start stop : Nat} {e : Expr} (ordered : start ≤ stop)
    (inside : stop ≤ ts.length) (h : Derives (ts.extract start stop) e) :
    ReadAt ts start stop e := by
  have size : (ts.extract start stop).length = stop - start := length_extract_of_le inside
  obtain ⟨found, same, ran⟩ :=
    readUnder_of_derives h (TokenCursor.endingOf ts) [] start (ts.drop stop)
  refine ⟨found, ?_, same⟩
  rw [read_place, ← extract_append_drop ordered, ran, size, Nat.add_sub_cancel' ordered]
  rfl

/-- Where tokens carry what they promise, whatever is read is an expression of the grammar. -/
theorem derives_of_readAt {ts : List Token} (carried : ∀ t ∈ ts, t.Carries) {start stop : Nat}
    (inside : start ≤ ts.length) {e : Expr} (h : ReadAt ts start stop e) :
    start ≤ stop ∧ stop ≤ ts.length ∧ Derives (ts.extract start stop) e := by
  obtain ⟨found, ran, same⟩ := h
  rw [read_place] at ran
  obtain ⟨word, behind, derived, split, derives, closed⟩ :=
    exists_derives_of_readUnder rfl (fun t mem => carried t (List.mem_of_mem_drop mem)) ran
  rw [close, Prod.mk.injEq, Except.ok.injEq] at closed
  obtain ⟨rfl, places⟩ := closed
  have reached : start + word.length = stop := congrArg TokenCursor.position places
  have size : ts.length - start = word.length + behind.length := by
    rw [← List.length_drop, split, List.length_append]
  refine ⟨by omega, by omega, ?_⟩
  rw [← reached, extract_of_drop split]
  exact derives.of_withoutLines same

/-- The reader accepts exactly its grammar. From any place of a list whose numbers and strings
carry their values, it gives a tree and ends at a place just where the tokens between the two are
an expression with that tree. Whatever tokens follow instead, the same expression is read, and no
other one begins there. -/
theorem read_iff_derives {ts : List Token} (carried : ∀ t ∈ ts, t.Carries) {start : Nat}
    (inside : start ≤ ts.length) :
    (∀ stop e, ReadAt ts start stop e ↔
      start ≤ stop ∧ stop ≤ ts.length ∧ Derives (ts.extract start stop) e) ∧
    (∀ stop e, ReadAt ts start stop e → ∀ others,
      ReadAt (ts.take stop ++ others) start stop e ∧
      ∀ stop' e', start ≤ stop' → stop' ≤ (ts.take stop ++ others).length →
        Derives ((ts.take stop ++ others).extract start stop') e' →
        stop' = stop ∧ e'.withoutLines = e.withoutLines) := by
  constructor
  · intro stop e
    constructor
    · exact derives_of_readAt carried inside
    · rintro ⟨ordered, within, derives⟩
      exact readAt_of_derives ordered within derives
  · intro stop e h others
    obtain ⟨ordered, within, derives⟩ := derives_of_readAt carried inside h
    have again : ReadAt (ts.take stop ++ others) start stop e := by
      apply readAt_of_derives ordered
      · rw [List.length_append, List.length_take]
        omega
      · rwa [extract_take_append within]
    constructor
    · exact again
    · intro stop' e' ordered' within' derives'
      exact again.unique (readAt_of_derives ordered' within' derives')

/-- The tokens of a number, a grouping under an operator and one parenthesis too many. -/
def signedGrouping : List Token :=
  [⟨.number, "0", .number (.ofBits 0), 1⟩, ⟨.minus, "-", .null, 1⟩, ⟨.leftParen, "(", .null, 2⟩,
    ⟨.string, "\"a\"", .text "a", 2⟩, ⟨.rightParen, ")", .null, 3⟩, ⟨.rightParen, ")", .null, 3⟩]

/-- Behind the number the operator with its grouping is read, up to the parenthesis left over. -/
theorem readAt_signedGrouping :
    (∀ t ∈ signedGrouping, t.Carries) ∧ 1 ≤ signedGrouping.length ∧
      ReadAt signedGrouping 1 5
        (unary ⟨.minus, "-", .null, 1⟩ (grouping (literal (.string "a") 2) 2) 1) := by
  have carried : ∀ t ∈ signedGrouping, t.Carries := by
    intro t mem
    simp only [signedGrouping, List.mem_cons, List.not_mem_nil, or_false] at mem
    rcases mem with rfl | rfl | rfl | rfl | rfl | rfl <;> constructor <;> simp
  have inside : 1 ≤ signedGrouping.length := by decide
  refine ⟨carried, inside, ((read_iff_derives carried inside).1 5 _).mpr ⟨by decide, by decide, ?_⟩⟩
  apply Derives.unary (.inr rfl)
  exact @Derives.grouping _ ⟨.rightParen, ")", .null, 3⟩ [⟨.string, "\"a\"", .text "a", 2⟩] _ _ rfl
    (.literal (.string rfl rfl)) rfl

end Expr
end ScriptFront
