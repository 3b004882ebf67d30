import ScriptFront.Proofs.Continuation

/-!
# First characters

A lexeme is known by its first character: what class of tokens it is written for, and that it is
neither trivia nor, unless it is a slash, the beginning of a comment. A first character other than
the quote is a lexeme by itself.
-/
namespace ScriptFront

/-- What is written between quotes on one line. -/
def Quoted (l : List Char) : Prop :=
  ∃ content, (∀ x ∈ content, x ≠ '"' ∧ x ≠ '\n') ∧ l = '"' :: (content ++ ['"'])

namespace Lexeme

variable {l : List Char} {type : TokenType} {literal : Literal}

theorem head_cases (h : Lexeme l type literal) :
    (l, type) ∈ fixedLexemes ∨ Quoted l ∨ ∃ x cs, l = x :: cs ∧ (Digit x ∨ Letter x) := by
  have head_numeral : ∀ {ds : List Char} (more : List Char), Numeral ds →
      ∃ x cs, ds ++ more = x :: cs ∧ (Digit x ∨ Letter x) := by
    intro ds more digits
    obtain ⟨d, ds, rfl⟩ := List.exists_cons_of_ne_nil digits.ne_nil
    exact ⟨d, ds ++ more, rfl, .inl (digits.digit d (by simp))⟩
  cases h with
  | fixed listed => exact .inl listed
  | string inside => exact .inr (.inl ⟨_, inside, rfl⟩)
  | whole digits => exact .inr (.inr (by simpa using head_numeral [] digits))
  | fraction digits => exact .inr (.inr (head_numeral _ digits))
  | keyword word | identifier word =>
    obtain ⟨x, more, rfl, letter, -⟩ := word
    exact .inr (.inr ⟨x, more, rfl, .inr letter⟩)

/-- A lexeme is not trivia, and begins no comment unless it is a slash. -/
theorem triviaLength_append (h : Lexeme l type literal) (noSlash : type ≠ .slash)
    (rest : List Char) : Cursor.triviaLength false (l ++ rest) = 0 := by
  obtain ⟨x, cs, rfl⟩ := List.exists_cons_of_ne_nil h.ne_nil
  have start : isBlank x = false ∧ x ≠ '/' := by
    rcases h.head_cases with listed | ⟨content, -, same⟩ | ⟨y, ys, same, head⟩
    · have fixed : ∀ p ∈ fixedLexemes, p.2 ≠ .slash →
          p.1.head?.all (fun x => !isBlank x && x != '/') = true := by decide
      simpa using fixed _ listed noSlash
    · obtain ⟨rfl, -⟩ := List.cons.inj same
      decide
    · obtain ⟨rfl, -⟩ := List.cons.inj same
      have part : isWordPart x = true := (isWordPart_iff x).2 head.symm
      have noPart : ['/', ' ', '\t', '\r', '\n'].all (fun x => !isWordPart x) = true := by decide
      rw [List.all_eq_true] at noPart
      constructor
      · rw [← Bool.not_eq_true, Cursor.isBlank_iff]
        intro blank
        simpa [part] using noPart x (List.mem_cons_of_mem _ blank)
      · rintro rfl
        simpa [part] using noPart '/' List.mem_cons_self
  rw [List.cons_append, Cursor.triviaLength_cons_eq_zero]
  exact ⟨start.1, fun slashes => start.2 slashes.1⟩

theorem head?_ne_equal (h : Lexeme l type literal) (free : (l, type) ∉ fixedLexemes) :
    l.head? ≠ some '=' := by
  rcases h.head_cases with listed | ⟨content, -, rfl⟩ | ⟨x, cs, rfl, start⟩
  · exact absurd listed free
  · simp
  · have noStart : ¬(Digit '=' ∨ Letter '=') := by decide
    intro equal
    obtain rfl : x = '=' := by simpa using equal
    exact noStart start

end Lexeme

theorem isLexeme_of_isWordStart {x : Char} (h : isWordStart x = true) : IsLexeme [x] := by
  obtain ⟨type, literal, matched, -⟩ := Reading.lexeme_word h []
  have alone : (Reading.word [x]).lexeme = [x] := by
    simp [Reading.word, Reading.plain, isWordPart, h]
  rw [alone] at matched
  exact ⟨type, literal, matched⟩

/-- The head of a lexeme is a lexeme, except for the quote of a string. -/
theorem Lexeme.isLexeme_head {x : Char} {more : List Char} {type : TokenType} {literal : Literal}
    (h : Lexeme (x :: more) type literal) (noQuote : x ≠ '"') : IsLexeme [x] := by
  rcases h.head_cases with listed | ⟨content, -, same⟩ | ⟨y, ys, same, start⟩
  · have alone : ∀ p ∈ fixedLexemes, p.1.take 1 ∈ fixedLexemes.map Prod.fst := by decide
    obtain ⟨p, listed', head⟩ := List.mem_map.1 (alone _ listed)
    refine ⟨p.2, .null, .fixed ?_⟩
    rwa [show [x] = p.1 from head.symm]
  · exact absurd (List.cons.inj same).1 noQuote
  · obtain ⟨rfl, -⟩ := List.cons.inj same
    rcases start with digit | letter
    · exact ⟨_, _, .whole ⟨by simp, by simpa using digit⟩⟩
    · exact isLexeme_of_isWordStart ((isWordStart_iff x).2 letter)

theorem Digit.only {x : Char} (h : Digit x) :
    isWordStart x = false ∧ isDigit x = true ∧ x ≠ '/' ∧ x ≠ '.' := by
  refine ⟨?_, (isDigit_iff x).2 h, ?_, ?_⟩
  · rw [← Bool.not_eq_true, isWordStart_iff]
    exact fun letter => not_digit_of_letter letter h
  · rintro rfl
    exact absurd h (by decide)
  · rintro rfl
    exact absurd h (by decide)

theorem Letter.only {x : Char} (h : Letter x) :
    isWordStart x = true ∧ isDigit x = false ∧ x ≠ '/' ∧ x ≠ '.' := by
  refine ⟨(isWordStart_iff x).2 h, ?_, ?_, ?_⟩
  · rw [← Bool.not_eq_true, isDigit_iff]
    exact not_digit_of_letter h
  · rintro rfl
    exact absurd h (by decide)
  · rintro rfl
    exact absurd h (by decide)

/-- The class of tokens that a lexeme beginning with some character is written for. -/
theorem Lexeme.head_iff {x : Char} {cs : List Char} {type : TokenType} {literal : Literal}
    (h : Lexeme (x :: cs) type literal) :
    (isWordStart x = true ↔ type.isWord = true) ∧ (isDigit x = true ↔ type = .number) ∧
      (x = '/' ↔ type = .slash) ∧ (x = '.' ↔ type = .dot) := by
  generalize text : x :: cs = l at h
  cases h with
  | fixed listed =>
    have heads : ∀ p ∈ fixedLexemes, p.1.head?.all (fun y =>
        isWordStart y == p.2.isWord && isDigit y == (p.2 == .number) &&
          (y == '/') == (p.2 == .slash) && (y == '.') == (p.2 == .dot)) = true := by decide
    have head := heads _ listed
    simp only [← text, List.head?_cons, Option.all_some, Bool.and_eq_true, beq_iff_eq] at head
    obtain ⟨⟨⟨letter, digit⟩, slash⟩, point⟩ := head
    refine ⟨by rw [letter], by rw [digit, beq_iff_eq], ?_, ?_⟩
    · rw [← beq_iff_eq, slash, beq_iff_eq]
    · rw [← beq_iff_eq, point, beq_iff_eq]
  | string =>
    obtain ⟨rfl, -⟩ := List.cons.inj text
    simp [isWordStart, isDigit, TokenType.isWord]
  | whole digits =>
    have head := digits.digit_head (text.trans (List.append_nil l).symm)
    simp [head.only, TokenType.isWord]
  | fraction digits =>
    simp [(digits.digit_head text).only, TokenType.isWord]
  | keyword word | identifier word =>
    obtain ⟨y, ys, rfl, letter, -⟩ := word
    obtain ⟨rfl, -⟩ := List.cons.inj text
    simp [letter.only, TokenType.isWord]

/-- A mark or an operator is written in one way only. -/
theorem Lexeme.spelled {l l' : List Char} {type : TokenType} {literal : Literal}
    (h : Lexeme l type literal) (listed : (l', type) ∈ fixedLexemes) : l = l' := by
  have apart : ∀ p ∈ fixedLexemes, p.2 ≠ .string ∧ p.2 ≠ .number ∧ p.2.isWord = false := by decide
  obtain ⟨noString, noNumber, noWord⟩ := apart _ listed
  cases h with
  | fixed listed' =>
    have once : ∀ p ∈ fixedLexemes, ∀ q ∈ fixedLexemes, p.2 = q.2 → p.1 = q.1 := by decide
    exact once _ listed' _ listed rfl
  | string => exact absurd rfl noString
  | whole | fraction => exact absurd rfl noNumber
  | keyword | identifier => cases noWord

end ScriptFront
