import ScriptFront.Proofs.EndOfTokens
import ScriptFront.Proofs.Yield

/-!
# Moves in a list of tokens

Whatever is done at a place of a list of tokens leads to a place of the same list, at the end or
before it. Looking at a token stays there; passing one goes on by one place, and reading by as many
tokens as it passes. None of those is of type EOF, and so the end is never passed.
-/
namespace ScriptFront

theorem Expr.Yields.type_ne_eof {passed : List Token} {next : Token}
    {result : Except ReadError Expr} (h : Yields passed next result) :
    ∀ t ∈ passed, t.type ≠ .eof := by
  have opener : ∀ {ts : List Token}, (∀ t ∈ ts, t.isOpener = true) → ∀ t ∈ ts, t.type ≠ .eof :=
    fun opens t mem => Token.type_ne_eof_of_isOpener (opens t mem)
  have closer : ∀ {ts : List Token}, (∀ t ∈ ts, t.type = .rightParen) →
      ∀ t ∈ ts, t.type ≠ .eof := by
    intro ts closes t mem
    simp [closes t mem]
  cases h with
  | tree chain held | noCloser chain held =>
    exact List.forall_mem_append.2 ⟨opener chain.opens,
      List.forall_mem_cons.2 ⟨type_ne_eof_of_atomOf? held, closer chain.closes⟩⟩
  | badLiteral opens held =>
    exact List.forall_mem_append.2 ⟨opener opens,
      List.forall_mem_singleton.2 (type_ne_eof_of_atomOf? held)⟩
  | noValue opens => exact opener opens

namespace TokenCursor

/-- The number of the first token of type EOF, or of the place behind the last token. -/
def lastPlace (ts : List Token) : Nat := ts.findIdx (·.type == .eof)

variable {ts : List Token} {start : Nat}

theorem type_ne_eof_of_lt (inside : start < ts.length) (before : start < lastPlace ts) :
    ts[start].type ≠ .eof := by
  simpa using List.not_of_lt_findIdx before

theorem type_lastPlace (inside : lastPlace ts < ts.length) : ts[lastPlace ts].type = .eof :=
  beq_iff_eq.1 (List.findIdx_getElem (w := inside))

/-- Just before the end and at it no token was of type EOF. -/
theorem le_lastPlace_iff :
    start ≤ lastPlace ts ↔ start ≤ ts.length ∧ ∀ t ∈ ts.take start, t.type ≠ .eof := by
  constructor
  · intro inside
    refine ⟨inside.trans List.findIdx_le_length, fun t mem => ?_⟩
    obtain ⟨i, short, rfl⟩ := List.mem_take_iff_getElem.1 mem
    exact type_ne_eof_of_lt (by omega) (by omega)
  · rintro ⟨short, real⟩
    refine Nat.not_lt.1 fun beyond => ?_
    have inside : lastPlace ts < ts.length := by omega
    have passed : ts[lastPlace ts] ∈ ts.take start :=
      List.mem_take_iff_getElem.2 ⟨lastPlace ts, by omega, rfl⟩
    exact real _ passed (type_lastPlace inside)

/-- At the end, and nowhere before it, the token that is seen is of type EOF. -/
theorem atEnd_place_iff (inside : start ≤ lastPlace ts) :
    (place ts start).atEnd = true ↔ start = lastPlace ts := by
  rcases Nat.lt_or_eq_of_le inside with before | rfl
  · have short : start < ts.length := before.trans_le List.findIdx_le_length
    simp [atEnd, peek_place, short, type_ne_eof_of_lt short before, before.ne]
  · refine iff_of_true ?_ rfl
    by_cases short : lastPlace ts < ts.length
    · simp [atEnd, peek_place, short, type_lastPlace short]
    · exact atEnd_place_of_length_le (Nat.not_lt.1 short)

/-- A token of another type than EOF can be passed, and leads to the next place. -/
theorem advance_place_of_ne (inside : start ≤ lastPlace ts)
    (real : (place ts start).peek.type ≠ .eof) :
    start + 1 ≤ lastPlace ts ∧ (place ts start).advance = place ts (start + 1) := by
  have notEnd : (place ts start).atEnd = false := by simpa [atEnd] using real
  refine ⟨?_, advance_place notEnd⟩
  have before := mt (atEnd_place_iff inside).2 (by simp [notEnd])
  omega

theorem advance_place_eq (inside : start ≤ lastPlace ts) :
    (place ts start).advance = place ts (min (start + 1) (lastPlace ts)) := by
  by_cases real : (place ts start).peek.type = .eof
  · have last : (place ts start).atEnd = true := by simpa [atEnd] using real
    rw [advance_of_atEnd last, ← (atEnd_place_iff inside).1 last, Nat.min_eq_right (Nat.le_succ _)]
  · obtain ⟨further, passed⟩ := advance_place_of_ne inside real
    rw [passed, Nat.min_eq_left further]

/-- `Moves ts start op answer stop`: an operation at place `start` gives the answer and ends at
place `stop`. -/
inductive Moves (ts : List Token) (start : Nat) : Operation → Answer → Nat → Prop
  | read (result : Except ReadError Expr) {stop : Nat} (forward : start ≤ stop) :
      Moves ts start .read (.tree result) stop
  | readLiteral (result : Except ReadError Expr) {stop : Nat} (forward : start ≤ stop)
      (single : stop ≤ start + 1) : Moves ts start .readLiteral (.tree result) stop
  | peek (t : Token) : Moves ts start .peek (.token t) start
  | advance (t : Token) : Moves ts start .advance (.token t) (min (start + 1) (lastPlace ts))
  | atEnd (b : Bool) : Moves ts start .atEnd (.truth b) start
  | check (type : TokenType) (b : Bool) : Moves ts start (.check type) (.truth b) start
  | consumed (type : TokenType) (message : String) (t : Token) :
      Moves ts start (.consume type message) (.consumed (.ok t)) (start + 1)
  | refused (type : TokenType) (message : String) (e : ParseError) :
      Moves ts start (.consume type message) (.consumed (.error e)) start

theorem Moves.le {op : Operation} {answer : Answer} {stop : Nat} (inside : start ≤ lastPlace ts)
    (h : Moves ts start op answer stop) : start ≤ stop := by
  cases h with
  | read _ forward => exact forward
  | readLiteral _ forward => exact forward
  | advance => omega
  | consumed => exact Nat.le_succ start
  | peek | atEnd | check | refused => exact Nat.le_refl start

/-- Every operation moves from a place not behind the end to another one. -/
theorem exists_moves (inside : start ≤ lastPlace ts) (op : Operation) :
    ∃ stop ≤ lastPlace ts, ((place ts start).perform op).2 = place ts stop ∧
      Moves ts start op ((place ts start).perform op).1 stop := by
  cases op with
  | read =>
    obtain ⟨passed, behind, split, reached, yields⟩ := Expr.yields_of_read_place ts start
    refine ⟨start + passed.length, ?_, reached, .read _ (Nat.le_add_right _ _)⟩
    obtain ⟨short, real⟩ := le_lastPlace_iff.1 inside
    have size := congrArg List.length split
    rw [List.length_drop, List.length_append] at size
    rw [le_lastPlace_iff, List.take_add, split, List.take_left]
    exact ⟨by omega, List.forall_mem_append.2 ⟨real, yields.type_ne_eof⟩⟩
  | readLiteral =>
    simp only [perform, Expr.readLiteral]
    cases held : Expr.atomOf? (place ts start).peek with
    | none => exact ⟨start, inside, rfl, .readLiteral _ (Nat.le_refl _) (Nat.le_succ _)⟩
    | some found =>
      obtain ⟨further, passed⟩ := advance_place_of_ne inside (Expr.type_ne_eof_of_atomOf? held)
      refine ⟨start + 1, further, ?_, .readLiteral _ (Nat.le_succ _) (Nat.le_refl _)⟩
      cases found <;> exact passed
  | peek => exact ⟨start, inside, rfl, .peek _⟩
  | advance =>
    exact ⟨_, Nat.min_le_right _ _, advance_place_eq inside, .advance _⟩
  | atEnd => exact ⟨start, inside, rfl, .atEnd _⟩
  | check type => exact ⟨start, inside, rfl, .check type _⟩
  | consume type message =>
    simp only [perform, consume]
    cases found : (place ts start).check type with
    | false => exact ⟨start, inside, rfl, .refused type message _⟩
    | true =>
      have real : (place ts start).peek.type ≠ .eof := by
        simp only [check, Bool.and_eq_true, Bool.not_eq_true', atEnd, beq_eq_false_iff_ne] at found
        exact found.1
      obtain ⟨further, passed⟩ := advance_place_of_ne inside real
      exact ⟨start + 1, further, passed, .consumed type message _⟩

/-- The place in a list of tokens after some operations, whatever they give or fail with. -/
def after (ts : List Token) (ops : List Operation) : TokenCursor :=
  ops.foldl (fun c op => (c.perform op).2) (ofTokens ts)

theorem after_concat (ts : List Token) (ops : List Operation) (op : Operation) :
    after ts (ops ++ [op]) = ((after ts ops).perform op).2 := by
  simp [after]

theorem exists_after (ts : List Token) (ops : List Operation) :
    ∃ stop ≤ lastPlace ts, after ts ops = place ts stop := by
  have run : ∀ start ≤ lastPlace ts, ∃ stop ≤ lastPlace ts,
      ops.foldl (fun c op => (c.perform op).2) (place ts start) = place ts stop := by
    induction ops with
    | nil => exact fun start inside => ⟨start, inside, rfl⟩
    | cons op ops ih =>
      intro start inside
      obtain ⟨next, inside', moved, -⟩ := exists_moves inside op
      rw [List.foldl_cons, moved]
      exact ih next inside'
  exact run 0 (Nat.zero_le _)

/-- Whatever was done with a list of tokens, the cursor is at a place of that list, at its first
token of type EOF or before it. The next operation never goes back and leads to such a place again.
Looking leaves the cursor where it is, and so does asking for a token that is not there; the token
that is asked for is passed, and one token is passed by advancing unless the end is reached. -/
theorem after_moves (ts : List Token) (ops : List Operation) :
    ∃ start ≤ lastPlace ts, after ts ops = place ts start ∧
      ∀ op, ∃ stop ≤ lastPlace ts, start ≤ stop ∧ after ts (ops ++ [op]) = place ts stop ∧
        Moves ts start op ((after ts ops).perform op).1 stop := by
  obtain ⟨start, inside, reached⟩ := exists_after ts ops
  refine ⟨start, inside, reached, fun op => ?_⟩
  obtain ⟨stop, inside', moved, moves⟩ := exists_moves inside op
  rw [after_concat, reached]
  exact ⟨stop, inside', moves.le inside, moved, moves⟩

end TokenCursor
end ScriptFront
