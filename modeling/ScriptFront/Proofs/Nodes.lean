import ScriptFront.Proofs.Grammar
import ScriptFront.Proofs.Yield

/-!
# Nodes and their tokens

Every node of a tree that is read is made of one token. Counted from the outside the groupings and
operators are made of the first tokens of the reading, one by one, and the literal of the token that
follows them. What is left of the reading is one right parenthesis for every grouping.
-/
namespace ScriptFront.Expr

/-- How many groupings and operators there are around the literal. -/
def depth : Expr → Nat
  | literal _ _ => 0
  | grouping inner _ => inner.depth + 1
  | unary _ operand _ => operand.depth + 1

/-- How many of them are groupings. -/
def groupingCount : Expr → Nat
  | literal _ _ => 0
  | grouping inner _ => inner.groupingCount + 1
  | unary _ operand _ => operand.groupingCount

/-- The node of a number, counted from zero at the outside, with all that is inside it. The literal
is the last node. -/
def node? : Expr → Nat → Option Expr
  | e, 0 => some e
  | literal _ _, _ + 1 => none
  | grouping inner _, i + 1 => inner.node? i
  | unary _ operand _, i + 1 => operand.node? i

@[simp] theorem node?_zero (e : Expr) : e.node? 0 = some e := by
  cases e <;> rfl

section Around

variable (opener : Token) (e : Expr)

theorem depth_around : (around opener e).depth = e.depth + 1 := by
  unfold around
  split <;> rfl

theorem groupingCount_around :
    (around opener e).groupingCount =
      e.groupingCount + if opener.type = .leftParen then 1 else 0 := by
  unfold around
  split <;> rfl

theorem node?_around (i : Nat) : (around opener e).node? (i + 1) = e.node? i := by
  unfold around
  split <;> rfl

end Around

variable (openers : List Token) (value : Atom) (line : Int)

theorem depth_foldr_around :
    (openers.foldr around (literal value line)).depth = openers.length := by
  induction openers with
  | nil => rfl
  | cons opener openers ih => rw [List.foldr_cons, depth_around, ih, List.length_cons]

theorem groupingCount_foldr_around :
    (openers.foldr around (literal value line)).groupingCount =
      countType .leftParen openers := by
  induction openers with
  | nil => rfl
  | cons opener openers ih => rw [List.foldr_cons, groupingCount_around, ih, countType_cons]

/-- Inside the first nodes are those that the other openers make. -/
theorem node?_foldr_around {i : Nat} (inside : i ≤ openers.length) :
    (openers.foldr around (literal value line)).node? i =
      some ((openers.drop i).foldr around (literal value line)) := by
  induction openers generalizing i with
  | nil =>
    obtain rfl := Nat.le_zero.1 inside
    rfl
  | cons opener openers ih =>
    cases i with
    | zero => rw [node?_zero, List.drop_zero]
    | succ i =>
      rw [List.foldr_cons, node?_around, List.drop_succ_cons]
      exact ih (Nat.le_of_succ_le_succ inside)

/-- Every node of a tree that is read is made of its own token, on the line of that token. Groupings
are made of left parentheses, operators of any other token in front of the literal, the literal of
the value that the token behind them gives; then there is a right parenthesis for every grouping, and
the reading ends behind the last of these. -/
theorem read_nodes {ts : List Token} {start : Nat} {e : Expr} {c : TokenCursor}
    (h : read (.place ts start) = (.ok e, c)) :
    (∀ i < e.depth, ∃ t inner, ts[start + i]? = some t ∧ e.node? (i + 1) = some inner ∧
      e.node? i =
        some (if t.type = .leftParen then grouping inner t.line else unary t inner t.line)) ∧
    (∃ t value, ts[start + e.depth]? = some t ∧ t.Gives value ∧
      e.node? e.depth = some (literal value t.line)) ∧
    (∀ i < e.groupingCount, ∃ t, ts[start + e.depth + 1 + i]? = some t ∧ t.type = .rightParen) ∧
    c = .place ts (start + e.depth + 1 + e.groupingCount) := by
  obtain ⟨passed, behind, split, place, yields⟩ := yields_of_read_place ts start
  rw [h] at place yields
  dsimp only at place
  cases yields with
  | @tree openers closers value _ atom chain held even =>
    have seen (i : Nat) : ts[start + i]? = (openers ++ value :: (closers ++ behind))[i]? := by
      rw [← List.getElem?_drop, split, List.append_assoc, List.cons_append]
    rw [depth_foldr_around, groupingCount_foldr_around, ← even]
    refine ⟨?_, ⟨value, atom, ?_, gives_of_atomOf? held, ?_⟩, ?_, ?_⟩
    · intro i inside
      refine ⟨openers[i], (openers.drop (i + 1)).foldr around (literal atom value.line), ?_,
        node?_foldr_around openers atom value.line inside, ?_⟩
      · rw [seen, List.getElem?_append_left inside, List.getElem?_eq_getElem inside]
      · rw [node?_foldr_around openers atom value.line inside.le,
          List.drop_eq_getElem_cons inside, List.foldr_cons]
        rfl
    · rw [seen, List.getElem?_append_right le_rfl, Nat.sub_self, List.getElem?_cons_zero]
    · rw [node?_foldr_around openers atom value.line le_rfl, List.drop_length, List.foldr_nil]
    · intro i inside
      refine ⟨closers[i], ?_, chain.closes _ (List.getElem_mem inside)⟩
      have behindValue : openers.length + 1 + i - openers.length = i + 1 := by omega
      rw [Nat.add_assoc, Nat.add_assoc, seen, ← Nat.add_assoc,
        List.getElem?_append_right (by omega), behindValue, List.getElem?_cons_succ,
        List.getElem?_append_left inside, List.getElem?_eq_getElem inside]
    · rw [place, List.length_append, List.length_cons]
      congr 1
      omega

/-- Two groupings with an operator between them, a semicolon in front and one parenthesis too many
behind. -/
def nestedGroupings : List Token :=
  [⟨.semicolon, ";", .null, 1⟩, ⟨.leftParen, "(", .null, 1⟩, ⟨.minus, "-", .null, 2⟩,
    ⟨.leftParen, "(", .null, 3⟩, ⟨.number, "2", .int 2, 4⟩, ⟨.rightParen, ")", .null, 5⟩,
    ⟨.rightParen, ")", .null, 6⟩, ⟨.rightParen, ")", .null, 6⟩]

def nestedTree : Expr :=
  grouping (unary ⟨.minus, "-", .null, 2⟩
    (grouping (literal (.number (.ofBits 0x4000000000000000)) 4) 3) 2) 1

theorem read_nodes_nested :
    read (.place nestedGroupings 1) = (.ok nestedTree, .place nestedGroupings 7) ∧
    (∀ i < 3, ∃ t inner, nestedGroupings[1 + i]? = some t ∧ nestedTree.node? (i + 1) = some inner ∧
      nestedTree.node? i =
        some (if t.type = .leftParen then grouping inner t.line else unary t inner t.line)) ∧
    (∃ t value, nestedGroupings[4]? = some t ∧ t.Gives value ∧
      nestedTree.node? 3 = some (literal value t.line)) ∧
    (∀ i < 2, ∃ t, nestedGroupings[5 + i]? = some t ∧ t.type = .rightParen) := by
  have ran : read (.place nestedGroupings 1) = (.ok nestedTree, .place nestedGroupings 7) := by
    decide +kernel
  obtain ⟨nodes, value, closers, -⟩ := read_nodes ran
  exact ⟨ran, nodes, value, closers⟩

end ScriptFront.Expr
