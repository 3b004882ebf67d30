import ScriptFront.Proofs.FirstCharacter

/-!
# Where a reading stands

A reading stands in front of a text if it is what is read there, and no comment is skipped first.
What decides is the head of the text behind it: a lexeme must not go on there, an unterminated
string must end with its line, and nothing matters to a character that no lexeme starts with. Two
characters of what follows are all that is looked at, and a blank is never looked past.
-/
namespace ScriptFront

/-- A character that no lexeme starts with stays one, whatever follows it. -/
theorem NoLexeme.congr_behind {x : Char} {rest : List Char} (none : NoLexeme (x :: rest))
    (noQuote : x ≠ '"') (rest' : List Char) : NoLexeme (x :: rest') := by
  rintro l behind same ⟨type, literal, matched⟩
  obtain ⟨y, more, rfl⟩ := List.exists_cons_of_ne_nil matched.ne_nil
  obtain ⟨rfl, -⟩ := List.cons.inj same
  exact none [y] rest rfl (matched.isLexeme_head noQuote)

/-- What stands on one line does not go over the end of a line. -/
theorem isPrefix_of_endsLine {l cs rest : List Char} (oneLine : '\n' ∉ l) (ends : EndsLine rest)
    (h : l <+: cs ++ rest) : l <+: cs := by
  rcases List.prefix_or_prefix_of_prefix h (List.prefix_append cs rest) with inside | ⟨beyond, rfl⟩
  · exact inside
  cases beyond with
  | nil => simp
  | cons x beyond =>
    obtain ⟨rest', same⟩ := h
    have behind : x :: (beyond ++ rest') = rest :=
      List.append_cancel_left ((List.append_assoc cs _ _).symm.trans same)
    obtain rfl : x = '\n' := ends x (by simp [← behind])
    simp at oneLine

/-- A line without a lexeme at its head is one without it, whatever the next line is. -/
theorem NoLexeme.congr_line {cs rest rest' : List Char} (none : NoLexeme (cs ++ rest))
    (ends : EndsLine rest') : NoLexeme (cs ++ rest') := by
  rintro l behind same ⟨type, literal, matched⟩
  have inside := isPrefix_of_endsLine matched.newline_not_mem ends ⟨behind, same⟩
  exact none.not_prefix matched (inside.trans (List.prefix_append cs rest))

theorem Munch.of_not_goesOn {l rest : List Char} {type : TokenType} {literal : Literal}
    (matched : Lexeme l type literal) (ends : ¬GoesOn l type rest) :
    Munch (l ++ rest) ⟨l, .ok (type, literal)⟩ := by
  obtain ⟨x, cs, same⟩ := List.exists_cons_of_ne_nil
    (List.append_ne_nil_of_left_ne_nil matched.ne_nil rest)
  rw [same, ← Reading.first_eq matched same.symm ends]
  exact munch_first x cs

/-- Where nothing is skipped in front of a lexeme, nothing is if what follows begins no comment
either. -/
theorem Cursor.triviaLength_congr_behind {l rest rest' : List Char} (nonempty : l ≠ [])
    (stop : triviaLength false (l ++ rest) = 0)
    (slash : rest'.head? = some '/' → rest.head? = some '/') :
    triviaLength false (l ++ rest') = 0 := by
  obtain ⟨x, cs, rfl⟩ := List.exists_cons_of_ne_nil nonempty
  rw [List.cons_append, triviaLength_cons_eq_zero] at stop ⊢
  refine ⟨stop.1, fun slashes => stop.2 ⟨slashes.1, ?_⟩⟩
  cases cs with
  | nil => exact slash slashes.2
  | cons y cs => exact slashes.2

theorem Munch.lexeme_ne_nil {cs : List Char} {r : Reading} (h : Munch cs r) : r.lexeme ≠ [] := by
  cases h with
  | token matched => exact matched.ne_nil
  | unterminated => simp
  | unexpected => simp

namespace Reading

/-- `r.Ends rest`: nothing in `rest` makes more of the reading `r` than it is. -/
def Ends (r : Reading) (rest : List Char) : Prop :=
  match r.verdict with
  | .ok (type, _) => ¬GoesOn r.lexeme type rest
  | .error (.unterminatedString _) => EndsLine rest
  | .error _ => True

/-- A reading is the longest one in front of any text that makes no more of it. -/
theorem munch_iff_ends {r : Reading} {rest : List Char} (h : Munch (r.lexeme ++ rest) r)
    (rest' : List Char) : Munch (r.lexeme ++ rest') r ↔ r.Ends rest' := by
  generalize same : r.lexeme ++ rest = text at h
  cases h with
  | @token l behind type literal matched longest =>
    constructor
    · intro munch
      obtain ⟨x, cs, split⟩ := List.exists_cons_of_ne_nil munch.ne_nil
      rw [split] at munch
      exact (lexeme_first_eq matched split.symm).1 (by rw [← munch.eq_first])
    · exact Munch.of_not_goesOn matched
  | @unterminated content behind none oneLine ends =>
    constructor
    · intro munch
      generalize same' : '"' :: content ++ rest' = text' at munch
      cases munch with
      | unterminated _ _ ends' =>
        rwa [List.append_cancel_left same']
    · intro ends'
      have none' : NoLexeme ('"' :: content ++ rest') := none.congr_line ends'
      exact .unterminated none' oneLine ends'
  | unexpected none noQuote =>
    exact iff_of_true (.unexpected (none.congr_behind noQuote rest') noQuote) trivial

/-- `r.Stands rest`: in front of `rest` nothing is skipped, and `r` is read. -/
structure Stands (r : Reading) (rest : List Char) : Prop where
  munch : Munch (r.lexeme ++ rest) r
  stop : Cursor.triviaLength false (r.lexeme ++ rest) = 0

/-- What makes no more of a reading is seen in two characters, and in none behind a blank. Only the
end of a line that cuts a string off is seen at once. -/
theorem Ends.congr_behind {r : Reading} {same tail tail' : List Char} (h : r.Ends (same ++ tail))
    (decided : 2 ≤ same.length ∨ ∀ x ∈ tail'.head?, x ∈ [' ', '\t', '\r', '\n'])
    (line : same = [] → ∀ content, r.verdict = .error (.unterminatedString content) →
      EndsLine tail') : r.Ends (same ++ tail') := by
  unfold Ends at h ⊢
  split at h
  · exact fun goesOn => h (GoesOn.congr_behind goesOn decided)
  · rename_i cut
    cases same with
    | nil => exact line rfl _ cut
    | cons x same => exact h
  · trivial

/-- So a reading stands where it stood as long as the first two characters behind it stay, or those
in front of a blank. -/
theorem Stands.congr_behind {r : Reading} {same tail tail' : List Char}
    (h : r.Stands (same ++ tail))
    (decided : 2 ≤ same.length ∨ ∀ x ∈ tail'.head?, x ∈ [' ', '\t', '\r', '\n'])
    (line : same = [] → ∀ content, r.verdict = .error (.unterminatedString content) →
      EndsLine tail') :
    r.Stands (same ++ tail') where
  munch := by
    have ends := (munch_iff_ends h.munch (same ++ tail)).1 h.munch
    exact (munch_iff_ends h.munch (same ++ tail')).2 (ends.congr_behind decided line)
  stop := by
    apply Cursor.triviaLength_congr_behind h.munch.lexeme_ne_nil h.stop
    cases same with
    | nil =>
      intro slash
      have blank : '/' ∈ [' ', '\t', '\r', '\n'] := decided.resolve_left (by simp) '/' slash
      simp at blank
    | cons x same => exact id

theorem stands_first {x : Char} {cs rest : List Char}
    (stop : Cursor.triviaLength false (x :: cs) = 0)
    (same : (first x cs).lexeme ++ rest = x :: cs) : (first x cs).Stands rest := by
  rw [← same] at stop
  refine ⟨?_, stop⟩
  rw [same]
  exact munch_first x cs

theorem Stands.newline_not_mem {r : Reading} {rest : List Char} (h : r.Stands rest) :
    '\n' ∉ r.lexeme := by
  obtain ⟨munch, stop⟩ := h
  generalize r.lexeme ++ rest = text at munch stop
  cases munch with
  | token matched => exact matched.newline_not_mem
  | unterminated _ oneLine => simpa using oneLine
  | unexpected =>
    rw [List.mem_singleton]
    rintro rfl
    exact absurd (Cursor.triviaLength_cons_eq_zero.1 stop).1 (by decide)

theorem Stands.not_endsLine {r : Reading} {rest : List Char} (h : r.Stands rest) :
    ¬EndsLine (r.lexeme ++ rest) := by
  obtain ⟨x, cs, same⟩ := List.exists_cons_of_ne_nil h.munch.lexeme_ne_nil
  rw [same, List.cons_append, endsLine_cons]
  rintro rfl
  exact h.newline_not_mem (by simp [same])

/-- Trivia in front of a reading is trivia in front of any text: its last line has ended. -/
theorem Stands.trivia {r : Reading} {gap rest : List Char} (h : r.Stands rest)
    (front : Trivia gap (r.lexeme ++ rest)) (rest' : List Char) : Trivia gap rest' :=
  front.congr_behind fun ends => absurd ends h.not_endsLine

/-- A reading that stands at the head of a text is the first item. -/
theorem Stands.items_eq {r : Reading} {rest : List Char} (h : r.Stands rest) (position : Nat)
    (line : Int) : Cursor.items ⟨r.lexeme ++ rest, position, line⟩ = ⟨position, line, r⟩ ::
      Cursor.items ⟨rest, position + r.lexeme.length, line + r.lexeme.count '\n'⟩ := by
  obtain ⟨munch, stop⟩ := h
  obtain ⟨x, cs, split⟩ := List.exists_cons_of_ne_nil munch.ne_nil
  rw [split] at munch stop ⊢
  obtain rfl := munch.eq_first
  exact Cursor.items_read stop split position line

end Reading

namespace Cursor

/-- A reading that stands behind trivia is the first item. -/
theorem items_of_stands {gap rest : List Char} {r : Reading} (trivia : Trivia gap (r.lexeme ++ rest))
    (stands : r.Stands rest) (position : Nat) (line : Int) :
    items ⟨gap ++ (r.lexeme ++ rest), position, line⟩ =
      ⟨position + gap.length, line + gap.count '\n', r⟩ ::
        items ⟨rest, position + (gap ++ r.lexeme).length,
          line + (gap ++ r.lexeme).count '\n'⟩ := by
  rw [items_of_trivia trivia, stands.items_eq, List.length_append, List.count_append,
    Int.natCast_add, Nat.add_assoc, Int.add_assoc]

/-- A text is either trivia, or trivia and a reading that stands and a text behind them. -/
theorem standing_induction {P : List Char → Prop} (trivia : ∀ gap, Trivia gap [] → P gap)
    (item : ∀ gap (r : Reading) rest, Trivia gap (r.lexeme ++ rest) → r.Stands rest → P rest →
      P (gap ++ (r.lexeme ++ rest)))
    (text : List Char) : P text := by
  induction text using items_induction with
  | trivia gap hgap => exact trivia gap hgap
  | item gap x cs rest hgap stop same ih =>
    have stands := Reading.stands_first stop same
    rw [← same] at hgap ⊢
    exact item gap _ rest hgap stands ih

end Cursor

end ScriptFront
