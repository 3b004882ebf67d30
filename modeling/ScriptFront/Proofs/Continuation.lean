import ScriptFront.Proofs.MaximalMunch

/-!
# What goes on behind a lexeme

A lexeme in front of a text is read as it is unless it goes on there: a word with a letter or a
digit, a number with a digit or with a fraction it does not have yet, an operator with the equals
sign it lacks. All other lexemes end by themselves. Two characters of the text decide, and a blank, a
right parenthesis or the end decides at once.
-/
namespace ScriptFront

def TokenType.isWord : TokenType → Bool
  | identifier | keyword _ => true
  | _ => false

/-- The operators that an equals sign may be joined to. -/
def loneOperators : List TokenType := [.equal, .bang, .less, .greater]

/-- `GoesOn l type rest`: in front of `rest` more than the lexeme `l` of that type is read. -/
def GoesOn (l : List Char) (type : TokenType) (rest : List Char) : Prop :=
  (type.isWord = true ∧ ∃ x ∈ rest.head?, isWordPart x = true) ∨
  (type = .number ∧ ∃ x ∈ rest.head?, isDigit x = true) ∨
  (type = .number ∧ '.' ∉ l ∧ ∃ more, rest = '.' :: more ∧ ∃ x ∈ more.head?, isDigit x = true) ∨
  (type ∈ loneOperators ∧ ∃ x ∈ rest.head?, x = '=')

theorem takeWhile_ne_nil_iff {α : Type} {p : α → Bool} {xs : List α} :
    xs.takeWhile p ≠ [] ↔ ∃ x ∈ xs.head?, p x = true := by
  cases xs with
  | nil => simp
  | cons x xs => cases hx : p x <;> simp [hx]

theorem Reading.fractionDigits_ne_nil_iff {cs : List Char} : fractionDigits cs ≠ [] ↔
    ∃ more, cs = '.' :: more ∧ ∃ x ∈ more.head?, isDigit x = true := by
  unfold fractionDigits
  split
  · rw [takeWhile_ne_nil_iff]
    simp
  · rename_i noPoint
    simp only [ne_eq, not_true_eq_false, false_iff, not_exists, not_and]
    intro more same
    exact absurd same (noPoint more)

/-- Marks and operators are neither words nor numbers. -/
theorem goesOn_fixed {l rest : List Char} {type : TokenType} (listed : (l, type) ∈ fixedLexemes) :
    GoesOn l type rest ↔ type ∈ loneOperators ∧ rest.head? = some '=' := by
  have apart : ∀ p ∈ fixedLexemes, p.2.isWord = false ∧ p.2 ≠ .number := by decide
  obtain ⟨noWord, noNumber⟩ := apart _ listed
  simp [GoesOn, noWord, noNumber]

theorem blank_apart {x : Char} (h : x ∈ [' ', '\t', '\r', '\n']) :
    isWordPart x = false ∧ isDigit x = false ∧ x ≠ '=' ∧ x ≠ '/' ∧ x ≠ '.' := by
  simp only [List.mem_cons, List.not_mem_nil, or_false] at h
  rcases h with rfl | rfl | rfl | rfl <;> decide

/-- Nothing goes on at the end, or with a character that continues no lexeme. -/
theorem not_goesOn_of_apart {l rest : List Char} {type : TokenType} (apart : ∀ x ∈ rest.head?,
    isWordPart x = false ∧ isDigit x = false ∧ x ≠ '=' ∧ x ≠ '.') : ¬GoesOn l type rest := by
  rintro (⟨-, x, head, part⟩ | ⟨-, x, head, digit⟩ | ⟨-, -, more, point, -⟩ | ⟨-, x, head, equal⟩)
  · simp [apart x head] at part
  · simp [apart x head] at digit
  · have noPoint := apart '.' (by simp [point])
    simp at noPoint
  · exact (apart x head).2.2.1 equal

theorem not_goesOn_of_blank {l rest : List Char} {type : TokenType}
    (blank : ∀ x ∈ rest.head?, x ∈ [' ', '\t', '\r', '\n']) : ¬GoesOn l type rest := by
  apply not_goesOn_of_apart
  intro x head
  obtain ⟨noPart, noDigit, noEqual, -, noPoint⟩ := blank_apart (blank x head)
  exact ⟨noPart, noDigit, noEqual, noPoint⟩

/-- A character that stands alone or in a string. -/
def Delimiter (x : Char) : Prop := x = ' ' ∨ x = ')'

theorem not_goesOn_of_delimiter {l rest : List Char} {type : TokenType}
    (delimited : ∀ x ∈ rest.head?, Delimiter x) : ¬GoesOn l type rest := by
  apply not_goesOn_of_apart
  intro x head
  rcases delimited x head with rfl | rfl <;> decide

/-- What a lexeme goes on with is seen in two characters, and in none behind a blank or the end. -/
theorem GoesOn.congr_behind {l same tail tail' : List Char} {type : TokenType}
    (h : GoesOn l type (same ++ tail'))
    (decided : 2 ≤ same.length ∨ ∀ x ∈ tail'.head?, x ∈ [' ', '\t', '\r', '\n']) :
    GoesOn l type (same ++ tail) := by
  match same with
  | [] =>
    have blank : ∀ x ∈ tail'.head?, x ∈ [' ', '\t', '\r', '\n'] := by simpa using decided
    exact absurd h (not_goesOn_of_blank blank)
  | [y] =>
    have blank : ∀ x ∈ tail'.head?, x ∈ [' ', '\t', '\r', '\n'] := by simpa using decided
    rcases h with word | digit | ⟨-, -, more, point, x, head, digit⟩ | lone
    · exact .inl word
    · exact .inr (.inl digit)
    · obtain ⟨-, rfl⟩ := List.cons.inj point
      simp [blank_apart (blank x head)] at digit
    · exact .inr (.inr (.inr lone))
  | y :: z :: same =>
    rcases h with word | digit | ⟨number, whole, more, point, next⟩ | lone
    · exact .inl word
    · exact .inr (.inl digit)
    · obtain ⟨rfl, rfl⟩ := List.cons.inj point
      exact .inr (.inr (.inl ⟨number, whole, _, rfl, next⟩))
    · exact .inr (.inr (.inr lone))

theorem goesOn_word {l rest : List Char} {type : TokenType} (word : type.isWord = true) :
    GoesOn l type rest ↔ rest.takeWhile isWordPart ≠ [] := by
  have noNumber : type ≠ .number := by rintro rfl; cases word
  have noOperator : type ∉ loneOperators := by
    have apart : ∀ type ∈ loneOperators, type.isWord = false := by decide
    intro mem
    rw [apart type mem] at word
    cases word
  rw [takeWhile_ne_nil_iff]
  simp [GoesOn, word, noNumber, noOperator]

theorem goesOn_number {l rest : List Char} : GoesOn l .number rest ↔
    rest.takeWhile isDigit ≠ [] ∨ ('.' ∉ l ∧ Reading.fractionDigits rest ≠ []) := by
  have noWord : TokenType.isWord .number = false := rfl
  have noOperator : TokenType.number ∉ loneOperators := by decide
  rw [takeWhile_ne_nil_iff, Reading.fractionDigits_ne_nil_iff]
  simp [GoesOn, noWord, noOperator]

theorem not_goesOn_string {l rest : List Char} : ¬GoesOn l .string rest := by
  have noWord : TokenType.isWord .string = false := rfl
  have noOperator : TokenType.string ∉ loneOperators := by decide
  simp [GoesOn, noWord, noOperator]

theorem Numeral.digit_head {x : Char} {cs ds more : List Char} (digits : Numeral ds)
    (same : x :: cs = ds ++ more) : Digit x := by
  obtain ⟨d, ds, rfl⟩ := List.exists_cons_of_ne_nil digits.ne_nil
  obtain ⟨rfl, -⟩ := List.cons.inj same
  exact digits.digit x List.mem_cons_self

namespace Reading

theorem lexeme_number_eq {ds : List Char} (digits : Numeral ds) (rest : List Char) :
    (number (ds ++ rest)).lexeme = ds ↔ ¬GoesOn ds .number rest := by
  rw [goesOn_number, number, List.takeWhile_append_of_pos digits.isDigit,
    List.dropWhile_append_of_pos digits.isDigit]
  simp only [digits.point_not_mem, not_false_eq_true, true_and]
  by_cases none : rest.takeWhile isDigit = []
  · have behind : rest.dropWhile isDigit = rest := by
      have split := List.takeWhile_append_dropWhile (p := isDigit) (l := rest)
      rwa [none, List.nil_append] at split
    rw [none, behind, List.append_nil]
    by_cases fraction : fractionDigits rest = [] <;> simp [fraction]
  · refine iff_of_false ?_ (by simp [none])
    split_ifs
    · simpa using none
    · simp

/-- In front of a text a lexeme is read as it is unless it goes on there. -/
theorem lexeme_first_eq {x : Char} {cs l rest : List Char} {type : TokenType} {literal : Literal}
    (h : Lexeme l type literal) (same : x :: cs = l ++ rest) :
    (first x cs).lexeme = l ↔ ¬GoesOn l type rest := by
  cases h with
  | fixed listed =>
    rw [goesOn_fixed listed]
    rcases fixedLexemes_cases _ listed with ⟨q, hq, hp⟩ | hp | ⟨q, hq, hp⟩ | ⟨q, hq, hp⟩ <;>
      obtain ⟨rfl, rfl⟩ := Prod.mk.inj hp <;> obtain ⟨rfl, rfl⟩ := List.cons.inj same
    · have notLone : ∀ q ∈ singleMarks, q.2 ∉ loneOperators := by decide
      simp [first_single hq, plain, notLone q hq]
    · simp [first_slash, plain, loneOperators]
    · have lone : ∀ q ∈ operatorMarks, q.2.1 ∈ loneOperators := by decide
      rw [first_operator hq]
      by_cases equals : cs.head? = some '=' <;> simp [equals, plain, lone q hq]
    · have notLone : ∀ q ∈ operatorMarks, q.2.2 ∉ loneOperators := by decide
      simp [first_operator hq, plain, notLone q hq]
  | @string content inside =>
    refine iff_of_true ?_ not_goesOn_string
    obtain ⟨rfl, hcs⟩ := List.cons.inj same
    have closed : cs = content ++ '"' :: rest := by simpa using hcs
    rw [first_quote, closed, string_closed inside]
  | whole digits =>
    rw [first_digit ((isDigit_iff x).2 (digits.digit_head same)), same]
    exact lexeme_number_eq digits rest
  | @fraction ds fs digits places =>
    have whole : x :: cs = ds ++ '.' :: (fs ++ rest) := by simpa using same
    rw [goesOn_number, first_digit ((isDigit_iff x).2 (digits.digit_head whole)), whole,
      number_fraction digits places]
    simp
  | keyword w =>
    rw [goesOn_word rfl, first_word w same, word, plain, List.takeWhile_append_of_pos w.all]
    simp
  | identifier w =>
    rw [goesOn_word rfl, first_word w same, word, plain, List.takeWhile_append_of_pos w.all]
    simp

/-- A lexeme that does not go on is read as its token. -/
theorem first_eq {x : Char} {cs l rest : List Char} {type : TokenType} {literal : Literal}
    (h : Lexeme l type literal) (same : x :: cs = l ++ rest) (ends : ¬GoesOn l type rest) :
    first x cs = ⟨l, .ok (type, literal)⟩ := by
  obtain ⟨more, type', literal', read, alone⟩ := first_extends h same
  have kept := (lexeme_first_eq h same).2 ends
  rw [read] at kept
  have noMore : more = [] := List.append_right_eq_self.1 kept
  obtain ⟨rfl, rfl⟩ := alone noMore
  rw [read, noMore, List.append_nil]

end Reading

end ScriptFront
