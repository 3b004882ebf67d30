import ScriptFront.Proofs.Continuation
import ScriptFront.Proofs.Item
import ScriptFront.Proofs.Stretch

/-!
# Turns

A scan is a loop whose turns are its passes, and a pass is made of loops over blanks and comments,
over the inside of a string, over digits and over the characters of a word. Every turn of every one
of them ends further on in the text, and none of them leaves the text. So a scan ends after no more
passes than its text has characters, at the end of the text, and each pass finds one token or one
error at most.
-/
namespace ScriptFront

/-- A loop: when it goes on, what a turn may do, and the place that it has reached. -/
structure Loop (σ : Type) where
  goesOn : σ → Prop
  turn : σ → σ → Prop
  place : σ → Nat

/-- `loop.Runs n s t`: entered at `s` the loop makes `n` turns, each of which ends further on, and
stops at `t`. -/
inductive Loop.Runs {σ : Type} (loop : Loop σ) : Nat → σ → σ → Prop
  | halt {s : σ} (stops : ¬loop.goesOn s) : Runs loop 0 s s
  | turn {n : Nat} {s s' t : σ} (goesOn : loop.goesOn s) (turned : loop.turn s s')
      (further : loop.place s < loop.place s') (more : Runs loop n s' t) : Runs loop (n + 1) s t

namespace Loop.Runs

variable {σ : Type} {loop : Loop σ} {n : Nat} {s t : σ}

/-- A loop comes as far as it makes turns, or further. -/
theorem add_le (h : loop.Runs n s t) : loop.place s + n ≤ loop.place t := by
  induction h with
  | halt => exact Nat.le_refl _
  | turn _ _ further _ ih => omega

theorem not_goesOn (h : loop.Runs n s t) : ¬loop.goesOn t := by
  induction h with
  | halt stops => exact stops
  | turn _ _ _ _ ih => exact ih

theorem lt_of_goesOn (h : loop.Runs n s t) (goesOn : loop.goesOn s) :
    loop.place s < loop.place t := by
  cases h with
  | halt stops => exact absurd goesOn stops
  | turn _ _ further more => exact further.trans_le ((Nat.le_add_right _ _).trans more.add_le)

end Loop.Runs

namespace Cursor

variable {text : List Char} {c stop : Cursor}

theorem lt_position_advance {x : Char} (here : c.rest.head? = some x) :
    c.position < c.advance.position := by
  obtain ⟨rest, split⟩ := List.head?_eq_some_iff.1 here
  simp [advance, split]

/-- The loop over the characters that pass a test. -/
def passing (test : Char → Bool) : Loop Cursor where
  goesOn c := ∃ x ∈ c.rest.head?, test x = true
  turn c c' := c' = c.advance
  place := position

/-- It takes the longest head of the text whose characters all pass the test. -/
theorem passing_runs (test : Char → Bool) (c : Cursor) :
    (passing test).Runs (c.rest.takeWhile test).length c
      (c.forward (c.rest.takeWhile test).length) := by
  induction rest : c.rest generalizing c with
  | nil => exact .halt (by simp [passing, rest])
  | cons x cs ih =>
    have here : c.rest.head? = some x := by rw [rest]; rfl
    cases passes : test x with
    | false =>
      rw [List.takeWhile_cons_of_neg (by simp [passes])]
      exact .halt (by simp [passing, here, passes])
    | true =>
      have behind : c.advance.rest = cs := by rw [rest_advance, rest]; rfl
      rw [List.takeWhile_cons_of_pos passes, List.length_cons]
      exact .turn ⟨x, here, passes⟩ rfl (lt_position_advance here) (ih c.advance behind)

/-- A turn of the loop over blanks and comments: a blank, or a comment up to the end of its line. -/
inductive TriviaTurn (c : Cursor) : Cursor → Prop
  | blank {x : Char} (here : x ∈ c.rest.head?) (blank : isBlank x = true) : TriviaTurn c c.advance
  | comment {n : Nat} {stop : Cursor} (begins : ['/', '/'] <+: c.rest)
      (line : (passing (· != '\n')).Runs n c stop) : TriviaTurn c stop

def skipping : Loop Cursor where
  goesOn c := (∃ x ∈ c.rest.head?, isBlank x = true) ∨ ['/', '/'] <+: c.rest
  turn := TriviaTurn
  place := position

theorem not_goesOn_skipping (none : triviaLength false c.rest = 0) : ¬skipping.goesOn c := by
  cases rest : c.rest with
  | nil => simp [skipping, rest]
  | cons x cs =>
    rw [rest] at none
    obtain ⟨noBlank, noComment⟩ := triviaLength_cons_eq_zero.1 none
    rintro (⟨y, here, blank⟩ | ⟨more, begins⟩)
    · rw [rest] at here
      obtain rfl : x = y := by simpa using here
      rw [noBlank] at blank
      cases blank
    · rw [rest] at begins
      cases begins
      exact noComment ⟨rfl, rfl⟩

/-- It takes trivia that nothing more is to be skipped behind, one blank or comment at a time. -/
theorem skipping_runs_trivia {gap behind : List Char} (trivia : Trivia gap behind)
    (none : triviaLength false behind = 0) (here : c.rest = gap ++ behind) :
    ∃ n, skipping.Runs n c (c.forward gap.length) := by
  induction trivia generalizing c with
  | none =>
    refine ⟨0, .halt (not_goesOn_skipping ?_)⟩
    rw [here]
    exact none
  | @blank x gap behind blank _ ih =>
    have head : x ∈ c.rest.head? := by rw [here]; rfl
    have passes := (isBlank_iff x).2 blank
    obtain ⟨n, more⟩ := ih (c := c.advance) none (by rw [rest_advance, here]; rfl)
    have further := lt_position_advance head
    exact ⟨n + 1, .turn (.inl ⟨x, head, passes⟩) (.blank head passes) further more⟩
  | @comment body gap behind oneLine ends _ ih =>
    have line : '\n' ∉ '/' :: '/' :: body := by simpa using oneLine
    have split : c.rest = '/' :: '/' :: body ++ (gap ++ behind) := by simpa using here
    have begins : ['/', '/'] <+: c.rest := ⟨body ++ (gap ++ behind), split.symm⟩
    have taken : c.rest.takeWhile (· != '\n') = '/' :: '/' :: body := by
      rw [split]
      exact (takeWhile_line line ends).1
    have run := passing_runs (· != '\n') c
    rw [taken] at run
    obtain ⟨n, more⟩ := ih (c := c.forward ('/' :: '/' :: body).length) none
      (by rw [rest_forward, split, List.drop_left])
    rw [← forward_add, ← List.length_append] at more
    refine ⟨n + 1, .turn (.inr begins) (.comment begins run) ?_ more⟩
    exact Nat.lt_of_lt_of_le (Nat.lt_add_of_pos_right (by simp)) run.add_le

theorem skipping_runs (c : Cursor) : ∃ n, skipping.Runs n c c.skipTrivia := by
  obtain ⟨n, run⟩ := skipping_runs_trivia (trivia_skipped c.rest) (triviaLength_skipped c.rest)
    (List.take_append_drop _ _).symm
  rw [List.length_take, Nat.min_eq_left (triviaLength_le false c.rest)] at run
  exact ⟨n, run⟩

/-- A fraction stands at the head of a text: a point with a digit behind it. -/
def BeginsFraction (cs : List Char) : Prop :=
  ∃ more, cs = '.' :: more ∧ ∃ y ∈ more.head?, isDigit y = true

/-- A character whose rule has no loop: a mark, or a character that no token starts with. -/
def Loopless (x : Char) : Prop := x ≠ '"' ∧ isDigit x = false ∧ isWordStart x = false

/-- `Traverses c stop`: the rule that the character at `c` selects goes over the text up to
`stop`. -/
inductive Traverses (c : Cursor) : Cursor → Prop
  | single {x : Char} (here : c.rest.head? = some x) (loopless : Loopless x)
      (alone : operatorMarks.lookup x = none ∨ c.advance.rest.head? ≠ some '=') :
      Traverses c c.advance
  | withEqual {x : Char} (here : c.rest.head? = some x) (loopless : Loopless x)
      (operator : operatorMarks.lookup x ≠ none) (equals : c.advance.rest.head? = some '=') :
      Traverses c c.advance.advance
  | unterminated {n : Nat} {stop : Cursor} (here : c.rest.head? = some '"')
      (inside : (passing isStringPart).Runs n c.advance stop) (ends : stop.rest.head? ≠ some '"') :
      Traverses c stop
  | closed {n : Nat} {stop : Cursor} (here : c.rest.head? = some '"')
      (inside : (passing isStringPart).Runs n c.advance stop)
      (closing : stop.rest.head? = some '"') : Traverses c stop.advance
  | whole {n : Nat} {x : Char} {stop : Cursor} (here : c.rest.head? = some x)
      (digit : isDigit x = true) (digits : (passing isDigit).Runs n c stop)
      (ends : ¬BeginsFraction stop.rest) : Traverses c stop
  | fraction {n m : Nat} {x : Char} {point stop : Cursor} (here : c.rest.head? = some x)
      (digit : isDigit x = true) (digits : (passing isDigit).Runs n c point)
      (begins : BeginsFraction point.rest) (places : (passing isDigit).Runs m point.advance stop) :
      Traverses c stop
  | word {n : Nat} {x : Char} {stop : Cursor} (here : c.rest.head? = some x)
      (letter : isWordStart x = true) (parts : (passing isWordPart).Runs n c stop) :
      Traverses c stop

/-- Every rule moves on, for it takes a character at once or its first loop goes on. -/
theorem Traverses.lt (h : Traverses c stop) : c.position < stop.position := by
  cases h with
  | single here => exact lt_position_advance here
  | withEqual here _ _ equals => exact (lt_position_advance here).trans (lt_position_advance equals)
  | unterminated here inside _ =>
    exact (lt_position_advance here).trans_le ((Nat.le_add_right _ _).trans inside.add_le)
  | closed here inside closing =>
    exact (lt_position_advance here).trans_le
      ((Nat.le_add_right _ _).trans (inside.add_le.trans (lt_position_advance closing).le))
  | whole here digit digits => exact digits.lt_of_goesOn ⟨_, here, digit⟩
  | fraction here digit digits begins places =>
    obtain ⟨more, point, -⟩ := begins
    have passed : _ < _ := lt_position_advance (c := _) (List.head?_eq_some_iff.2 ⟨more, point⟩)
    have before := digits.lt_of_goesOn ⟨_, here, digit⟩
    exact before.trans (passed.trans_le ((Nat.le_add_right _ _).trans places.add_le))
  | word here letter parts =>
    exact parts.lt_of_goesOn ⟨_, here, by simp [isWordPart, letter]⟩

variable {x : Char} {cs : List Char}

theorem rest_advance_of (here : c.rest = x :: cs) : c.advance.rest = cs := by
  rw [rest_advance, here, List.tail_cons]

theorem rest_forward_takeWhile (test : Char → Bool) (c : Cursor) :
    (c.forward (c.rest.takeWhile test).length).rest = c.rest.dropWhile test := by
  have split : c.rest.drop 0 = c.rest.takeWhile test ++ c.rest.dropWhile test :=
    List.takeWhile_append_dropWhile.symm
  rw [rest_forward, ← drop_of_drop split, Nat.zero_add]

theorem traverses_string (here : c.rest = '"' :: cs) :
    c.Traverses (c.forward (Reading.string ('"' :: cs)).lexeme.length) := by
  have head : c.rest.head? = some '"' := by rw [here]; rfl
  have inside := passing_runs isStringPart c.advance
  have stop := rest_forward_takeWhile isStringPart c.advance
  rw [rest_advance_of here] at inside stop
  have behind : ('"' :: cs).drop (['"'] ++ cs.takeWhile isStringPart).length =
      cs.dropWhile isStringPart := by
    have split : ('"' :: cs).drop 0 = ['"'] ++ cs.takeWhile isStringPart ++
      cs.dropWhile isStringPart := by simp
    rw [← drop_of_drop split, Nat.zero_add]
  simp only [Reading.string, List.tail_cons, List.take_succ_cons, List.take_zero, behind]
  rw [← stop]
  split_ifs with closing
  · have length : (['"'] ++ cs.takeWhile isStringPart ++ ['"']).length =
        (cs.takeWhile isStringPart).length + 1 + 1 := by simp
    rw [length, forward_add]
    exact .closed head inside closing
  · exact .unterminated head inside closing

theorem traverses_number (digit : isDigit x = true) (here : c.rest = x :: cs) :
    c.Traverses (c.forward (Reading.number (x :: cs)).lexeme.length) := by
  have head : c.rest.head? = some x := by rw [here]; rfl
  have digits := passing_runs isDigit c
  have stop := rest_forward_takeWhile isDigit c
  simp only [Reading.number]
  rw [← here, ← stop]
  split_ifs with none
  · refine .whole head digit digits (mt Reading.fractionDigits_ne_nil_iff.2 ?_)
    simpa using none
  · have some : Reading.fractionDigits (c.forward (c.rest.takeWhile isDigit).length).rest ≠ [] := by
      simpa using none
    obtain ⟨more, point, next⟩ := Reading.fractionDigits_ne_nil_iff.1 some
    have places := passing_runs isDigit (c.forward (c.rest.takeWhile isDigit).length).advance
    rw [rest_advance_of point] at places
    have length : (c.rest.takeWhile isDigit ++ '.' :: more.takeWhile isDigit).length =
        (c.rest.takeWhile isDigit).length + ((more.takeWhile isDigit).length + 1) := by simp
    rw [point, Reading.fractionDigits, length, forward_add]
    exact .fraction head digit digits ⟨more, point, next⟩ places

theorem traverses_word (letter : isWordStart x = true) (here : c.rest = x :: cs) :
    c.Traverses (c.forward (Reading.word (x :: cs)).lexeme.length) := by
  have head : c.rest.head? = some x := by rw [here]; rfl
  have parts := passing_runs isWordPart c
  rw [here] at parts
  exact .word head letter parts

theorem traverses_first (here : c.rest = x :: cs) :
    c.Traverses (c.forward (Reading.first x cs).lexeme.length) := by
  have head : c.rest.head? = some x := by rw [here]; rfl
  have behind : c.advance.rest = cs := rest_advance_of here
  have single : ∀ q ∈ singleMarks, Loopless q.1 ∧ operatorMarks.lookup q.1 = none := by
    unfold Loopless
    decide
  have operator : ∀ q ∈ operatorMarks, Loopless q.1 := by
    unfold Loopless
    decide
  unfold Reading.first
  split
  · rename_i found
    obtain ⟨loopless, alone⟩ := single _ (Reading.mem_of_lookup found)
    exact .single head loopless (.inl alone)
  · rename_i found
    have loopless := operator _ (Reading.mem_of_lookup found)
    split_ifs with equals
    · exact .withEqual head loopless (by simp [found]) (by rw [behind, equals])
    · exact .single head loopless (.inr (by rwa [behind]))
  · rename_i alone
    split_ifs with slash quote digit letter
    · subst slash
      exact .single head (by unfold Loopless; decide) (.inl alone)
    · subst quote
      exact traverses_string here
    · exact traverses_number digit here
    · exact traverses_word letter here
    · exact .single head ⟨quote, by simpa using digit, by simpa using letter⟩ (.inl alone)

end Cursor

namespace Scan

/-- `s.Passes t`: one pass leads from `s` to `t`, over blanks and comments and then, unless the text
has ended, over the text of one token or one error, which is kept. -/
inductive Passes (s : Scan) : Scan → Prop
  | ended {n : Nat} {c : Cursor} (skipped : Cursor.skipping.Runs n s.cursor c)
      (atEnd : c.rest = []) : Passes s { s with cursor := c }
  | found {n : Nat} {c stop : Cursor} (skipped : Cursor.skipping.Runs n s.cursor c)
      (read : c.Traverses stop) (found : Except ScanError Token) :
      Passes s ({ s with cursor := stop }.keep found)

def foundCount (s : Scan) : Nat := s.tokens.size + s.errors.size

theorem foundCount_keep (s : Scan) (found : Except ScanError Token) :
    (s.keep found).foundCount = s.foundCount + 1 := by
  cases found with
  | ok token => simp [keep, foundCount]; omega
  | error e => simp [keep, foundCount]; omega

namespace Passes

variable {s t : Scan}

/-- A pass before the end moves on, also where it finds nothing but blanks and comments. -/
theorem lt (h : s.Passes t) (inside : s.cursor.rest ≠ []) :
    s.cursor.position < t.cursor.position := by
  cases h with
  | ended skipped atEnd =>
    cases skipped with
    | halt => exact absurd atEnd inside
    | turn _ _ further more => exact further.trans_le ((Nat.le_add_right _ _).trans more.add_le)
  | found skipped read found =>
    rw [cursor_keep]
    exact ((Nat.le_add_right _ _).trans skipped.add_le).trans_lt read.lt

theorem foundCount_le (h : s.Passes t) : t.foundCount ≤ s.foundCount + 1 := by
  cases h with
  | ended => exact Nat.le_succ _
  | found => exact (foundCount_keep _ _).le

theorem source_eq (h : s.Passes t) : t.source = s.source := by
  cases h with
  | ended => rfl
  | found _ _ found => cases found <;> rfl

end Passes

theorem passes_pass (s : Scan) : s.Passes s.pass := by
  obtain ⟨n, skipped⟩ := Cursor.skipping_runs s.cursor
  cases here : s.cursor.skipTrivia.rest with
  | nil =>
    rw [pass_nil here]
    exact .ended skipped here
  | cons x cs =>
    rw [pass_cons here]
    exact .found skipped (Cursor.traverses_first here) _

theorem within_pass {s : Scan} (h : s.cursor.Within s.source) :
    s.pass.cursor.Within s.pass.source := by
  obtain ⟨n, -, passed⟩ := s.cursor_pass
  rw [s.passes_pass.source_eq, passed]
  exact h.forward n

/-- The loop of a scan, whose turns are the passes. -/
def passing : Loop Scan where
  goesOn s := s.cursor.position < s.source.length
  turn s t := t = s.pass
  place s := s.cursor.position

/-- The run of a scan is a run of that loop. -/
theorem passing_runs {s : Scan} (h : s.cursor.Within s.source) :
    ∃ n, passing.Runs n s s.run ∧ s.run.cursor.Within s.source := by
  induction s using run.induct with
  | case1 s atEnd =>
    rw [run, if_pos atEnd]
    exact ⟨0, .halt (mt h.rest_ne_nil_iff.2 (by simpa using atEnd)), h⟩
  | case2 s inside ih =>
    obtain ⟨n, more, within⟩ := ih (within_pass h)
    rw [s.passes_pass.source_eq] at within
    rw [run, if_neg inside]
    exact ⟨n + 1, .turn (h.rest_ne_nil_iff.1 inside) rfl (s.passes_pass.lt inside) more, within⟩

theorem foundCount_le_of_runs {n : Nat} {s t : Scan} (h : passing.Runs n s t) :
    t.foundCount ≤ s.foundCount + n := by
  induction h with
  | halt => exact Nat.le_refl _
  | @turn n s s' t _ turned _ _ ih =>
    obtain rfl : s' = s.pass := turned
    have step := s.passes_pass.foundCount_le
    omega

/-- A scan moves on in every turn of every loop. From any place of a text each inner loop makes
turns that end further on, and stops inside the text; before the end a pass is made of such loops,
and ends further on too. So a whole scan, however it was moved before, ends at the end of its text
after no more passes than the text has characters, and finds no more tokens and errors than that,
besides the token of type EOF. -/
theorem complete_in_turns (s : Scan) :
    (∀ c : Cursor, c.Within s.source →
      (∀ test, ∃ n stop, (Cursor.passing test).Runs n c stop ∧ stop.Within s.source) ∧
      ∃ n stop, Cursor.skipping.Runs n c stop ∧ stop.Within s.source) ∧
    (s.cursor.Within s.source → s.cursor.position < s.source.length →
      s.Passes s.pass ∧ s.cursor.position < s.pass.cursor.position ∧
      s.pass.cursor.Within s.source) ∧
    (∃ n ≤ s.source.length, passing.Runs n s.restart s.restart.run) ∧
    s.complete.cursor.position = s.source.length ∧ 0 < s.complete.tokens.size ∧
    s.complete.tokens.size - 1 + s.complete.errors.size ≤ s.source.length := by
  refine ⟨?_, ?_, ?_⟩
  · intro c within
    obtain ⟨n, skipped⟩ := Cursor.skipping_runs c
    exact ⟨fun test => ⟨_, _, Cursor.passing_runs test c, within.forward _⟩,
      n, _, skipped, within.forward _⟩
  · intro within inside
    have stays := within_pass within
    rw [s.passes_pass.source_eq] at stays
    exact ⟨s.passes_pass, s.passes_pass.lt (within.rest_ne_nil_iff.2 inside), stays⟩
  · obtain ⟨n, turns, within⟩ := passing_runs (s := s.restart) (Cursor.within_start s.source)
    have few : 0 + n ≤ s.restart.run.cursor.position := turns.add_le
    have found := foundCount_le_of_runs turns
    have none : s.restart.foundCount = 0 := rfl
    have last : s.restart.run.cursor.position = s.source.length := by
      have source : s.restart.run.source = s.source := by rw [run_eq]; rfl
      have halted : ¬s.restart.run.cursor.position < s.restart.run.source.length := turns.not_goesOn
      rw [source] at halted
      exact Nat.le_antisymm within.position_le (Nat.not_lt.1 halted)
    have tokens : s.complete.tokens.size = s.restart.run.tokens.size + 1 := Array.size_push _
    have errors : s.complete.errors = s.restart.run.errors := rfl
    refine ⟨⟨n, by omega, turns⟩, last, by omega, ?_⟩
    rw [errors]
    unfold foundCount at found none
    omega

-- Only a comment is left, on a line that is not the first one.
theorem complete_in_turns_comment :
    let s : Scan := ⟨['a', '/', '/', 'b'], "", ⟨['/', '/', 'b'], 1, 7⟩, #[], #[], #[]⟩
    s.cursor.Within s.source ∧ s.cursor.position < s.source.length ∧
      s.Passes s.pass ∧ s.cursor.position < s.pass.cursor.position ∧
      s.pass.cursor.Within s.source := by
  intro s
  have within : s.cursor.Within s.source := ⟨by decide, rfl⟩
  have inside : s.cursor.position < s.source.length := by decide
  obtain ⟨-, moves, -⟩ := s.complete_in_turns
  exact ⟨within, inside, moves within inside⟩

end Scan
end ScriptFront
