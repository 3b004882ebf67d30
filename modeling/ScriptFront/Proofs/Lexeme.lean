import ScriptFront.Proofs.Trivia
import ScriptFront.Token.Reading

/-!
# Lexemes

The lexical rules as a relation between a text and the token it is written for, apart from any
way of reading. A lexeme determines its token. The reading that the first character selects is a
lexeme wherever one stands at the head of the text, and then it extends every other one.
-/
namespace ScriptFront

def Digit (x : Char) : Prop := '0' ≤ x ∧ x ≤ '9'

def Letter (x : Char) : Prop := ('a' ≤ x ∧ x ≤ 'z') ∨ ('A' ≤ x ∧ x ≤ 'Z') ∨ x = '_'

instance : DecidablePred Digit := fun _ => inferInstanceAs (Decidable (_ ∧ _))

instance : DecidablePred Letter := fun _ => inferInstanceAs (Decidable (_ ∨ _ ∨ _))

/-- At least one digit, and digits only. -/
structure Numeral (ds : List Char) : Prop where
  ne_nil : ds ≠ []
  digit : ∀ d ∈ ds, Digit d

/-- A letter, and letters and digits behind it. -/
def Word (cs : List Char) : Prop :=
  ∃ x more, cs = x :: more ∧ Letter x ∧ ∀ y ∈ more, Letter y ∨ Digit y

/-- The lexemes that are written in one way only. -/
def fixedLexemes : List (List Char × TokenType) := [
  (['('], .leftParen), ([')'], .rightParen), (['\x7b'], .leftBrace), (['\x7d'], .rightBrace),
  ([','], .comma), (['.'], .dot), (['-'], .minus), (['+'], .plus), ([';'], .semicolon),
  (['*'], .star), (['/'], .slash),
  (['='], .equal), (['=', '='], .equalEqual), (['!'], .bang), (['!', '='], .bangEqual),
  (['<'], .less), (['<', '='], .lessEqual), (['>'], .greater), (['>', '='], .greaterEqual)]

/-- `Lexeme cs type literal`: the text `cs` is written for a token of that type and literal. -/
inductive Lexeme : List Char → TokenType → Literal → Prop
  | fixed {cs : List Char} {type : TokenType} (listed : (cs, type) ∈ fixedLexemes) :
      Lexeme cs type .null
  | string {content : List Char} (inside : ∀ x ∈ content, x ≠ '"' ∧ x ≠ '\n') :
      Lexeme ('"' :: (content ++ ['"'])) .string (.text (String.ofList content))
  | whole {ds : List Char} (digits : Numeral ds) :
      Lexeme ds .number (.number (Binary64.ofNumeral ds []))
  | fraction {ds fs : List Char} (digits : Numeral ds) (places : Numeral fs) :
      Lexeme (ds ++ '.' :: fs) .number (.number (Binary64.ofNumeral ds fs))
  | keyword {cs : List Char} {k : Keyword} (word : Word cs) (reserved : String.ofList cs = k.text) :
      Lexeme cs (.keyword k) .null
  | identifier {cs : List Char} (word : Word cs) (free : ∀ k : Keyword, String.ofList cs ≠ k.text) :
      Lexeme cs .identifier .null

theorem isDigit_iff (x : Char) : isDigit x = true ↔ Digit x := by simp [isDigit, Digit]

theorem isWordStart_iff (x : Char) : isWordStart x = true ↔ Letter x := by
  simp [isWordStart, Letter, or_assoc]

theorem isWordPart_iff (x : Char) : isWordPart x = true ↔ Letter x ∨ Digit x := by
  simp [isWordPart, isWordStart_iff, isDigit_iff]

theorem isStringPart_iff (x : Char) : isStringPart x = true ↔ x ≠ '"' ∧ x ≠ '\n' := by
  simp [isStringPart]

theorem Numeral.ofTakeWhile {x : Char} {cs : List Char} (h : isDigit x = true) :
    Numeral ((x :: cs).takeWhile isDigit) := by
  constructor
  · simp [h]
  · intro d hd
    exact (isDigit_iff d).1 (List.mem_takeWhile_imp hd)

theorem not_digit_of_letter {x : Char} (h : Letter x) : ¬Digit x := by
  simp only [Letter, Digit, Char.le_def, UInt32.le_iff_toNat_le] at *
  rintro ⟨low, high⟩
  change 48 ≤ x.val.toNat at low
  change x.val.toNat ≤ 57 at high
  rcases h with ⟨h, -⟩ | ⟨h, -⟩ | rfl
  · change 97 ≤ x.val.toNat at h
    omega
  · change 65 ≤ x.val.toNat at h
    omega
  · revert high
    decide

theorem Numeral.isDigit {ds : List Char} (h : Numeral ds) : ∀ d ∈ ds, isDigit d = true := by
  intro d hd
  exact (isDigit_iff d).2 (h.digit d hd)

theorem Numeral.point_not_mem {ds : List Char} (digits : Numeral ds) : '.' ∉ ds := by
  have noDigit : ¬Digit '.' := by decide
  exact fun mem => noDigit (digits.digit _ mem)

theorem Word.ofTakeWhile {x : Char} {cs : List Char} (h : isWordStart x = true) :
    Word ((x :: cs).takeWhile isWordPart) := by
  have hx : isWordPart x = true := by simp [isWordPart, h]
  refine ⟨x, cs.takeWhile isWordPart, by simp [hx], (isWordStart_iff x).1 h, ?_⟩
  intro y hy
  exact (isWordPart_iff y).1 (List.mem_takeWhile_imp hy)

theorem Word.all {cs : List Char} (h : Word cs) : ∀ y ∈ cs, isWordPart y = true := by
  obtain ⟨x, more, rfl, hx, hmore⟩ := h
  intro y hy
  rw [isWordPart_iff]
  rcases List.mem_cons.1 hy with rfl | hy
  · exact .inl hx
  · exact hmore y hy

theorem Lexeme.ne_nil {cs : List Char} {type : TokenType} {literal : Literal}
    (h : Lexeme cs type literal) : cs ≠ [] := by
  cases h with
  | fixed listed =>
    have : ∀ p ∈ fixedLexemes, p.1 ≠ [] := by decide
    exact this _ listed
  | string => simp
  | whole digits => exact digits.ne_nil
  | fraction => simp
  | keyword word | identifier word =>
    obtain ⟨x, more, rfl, -⟩ := word
    simp

theorem Lexeme.type_ne_eof {cs : List Char} {type : TokenType} {literal : Literal}
    (h : Lexeme cs type literal) : type ≠ .eof := by
  cases h with
  | fixed listed =>
    have : ∀ p ∈ fixedLexemes, p.2 ≠ .eof := by decide
    exact this _ listed
  | _ => simp

theorem Lexeme.newline_not_mem {cs : List Char} {type : TokenType} {literal : Literal}
    (h : Lexeme cs type literal) : '\n' ∉ cs := by
  have notPart : isWordPart '\n' = false := by decide
  have notDigit : ¬Digit '\n' := by decide
  cases h with
  | fixed listed =>
    have : ∀ p ∈ fixedLexemes, '\n' ∉ p.1 := by decide
    exact this _ listed
  | string inside =>
    intro h
    simp only [List.mem_cons, List.mem_append, List.not_mem_nil, or_false, Char.reduceEq,
      false_or] at h
    exact (inside _ h).2 rfl
  | whole digits => exact fun h => notDigit (digits.digit _ h)
  | fraction digits places =>
    intro h
    rcases List.mem_append.1 h with h | h
    · exact notDigit (digits.digit _ h)
    · exact notDigit (places.digit _ (by simpa using h))
  | keyword word | identifier word =>
    intro h
    simpa [notPart] using word.all _ h

namespace Reading

theorem first_single {q : Char × TokenType} (h : q ∈ singleMarks) (cs : List Char) :
    first q.1 cs = plain [q.1] q.2 := by
  have found : ∀ q ∈ singleMarks, singleMarks.lookup q.1 = some q.2 := by decide
  simp [first, found q h]

theorem first_operator {q : Char × TokenType × TokenType} (h : q ∈ operatorMarks)
    (cs : List Char) :
    first q.1 cs =
      if cs.head? = some '=' then plain [q.1, '='] q.2.2 else plain [q.1] q.2.1 := by
  have missing : ∀ q ∈ operatorMarks, singleMarks.lookup q.1 = none := by decide
  have found : ∀ q ∈ operatorMarks, operatorMarks.lookup q.1 = some q.2 := by decide
  simp [first, missing q h, found q h]

theorem first_slash (cs : List Char) : first '/' cs = plain ['/'] .slash := rfl

theorem first_quote (cs : List Char) : first '"' cs = string ('"' :: cs) := rfl

theorem lookup_eq_none {α : Type} (marks : List (Char × α)) {p : Char → Bool} {x : Char}
    (h : ∀ q ∈ marks, p q.1 = false) (hx : p x = true) : marks.lookup x = none := by
  rw [List.lookup_eq_none_iff]
  intro q hq
  by_cases same : x = q.1
  · rw [same, h q hq] at hx
    cases hx
  · simpa using same

theorem mem_of_lookup {α : Type} {marks : List (Char × α)} {x : Char} {a : α}
    (h : marks.lookup x = some a) : (x, a) ∈ marks := by
  obtain ⟨before, behind, rfl, -⟩ := List.lookup_eq_some_iff.1 h
  simp

theorem first_digit {x : Char} (h : isDigit x = true) (cs : List Char) :
    first x cs = number (x :: cs) := by
  have single := lookup_eq_none singleMarks (by decide) h
  have operator := lookup_eq_none operatorMarks (by decide) h
  have slash : x ≠ '/' := by rintro rfl; simp [isDigit] at h
  have quote : x ≠ '"' := by rintro rfl; simp [isDigit] at h
  simp [first, single, operator, slash, quote, h]

theorem first_letter {x : Char} (h : isWordStart x = true) (cs : List Char) :
    first x cs = word (x :: cs) := by
  have single := lookup_eq_none singleMarks (by decide) h
  have operator := lookup_eq_none operatorMarks (by decide) h
  have digit : isDigit x = false := by
    rw [← Bool.not_eq_true, isDigit_iff]
    exact not_digit_of_letter ((isWordStart_iff x).1 h)
  have slash : x ≠ '/' := by rintro rfl; simp [isWordStart] at h
  have quote : x ≠ '"' := by rintro rfl; simp [isWordStart] at h
  simp [first, single, operator, slash, quote, digit, h]

/-- A string that is closed on its line ends with the quote that closes it. -/
theorem string_closed {content : List Char} (inside : ∀ x ∈ content, x ≠ '"' ∧ x ≠ '\n')
    (rest : List Char) :
    string ('"' :: (content ++ '"' :: rest)) =
      ⟨'"' :: (content ++ ['"']), .ok (.string, .text (String.ofList content))⟩ := by
  have parts : ∀ x ∈ content, isStringPart x = true := by
    intro x hx
    exact (isStringPart_iff x).2 (inside x hx)
  simp [string, List.takeWhile_append_of_pos parts, isStringPart]

/-- A string that is not closed ends with its line. -/
theorem string_unterminated {content rest : List Char}
    (inside : ∀ x ∈ content, x ≠ '"' ∧ x ≠ '\n') (ends : EndsLine rest) :
    string ('"' :: (content ++ rest)) =
      ⟨'"' :: content, .error (.unterminatedString (String.ofList content))⟩ := by
  have parts : ∀ x ∈ content, isStringPart x = true := by
    intro x hx
    exact (isStringPart_iff x).2 (inside x hx)
  cases rest with
  | nil => simp [string, List.takeWhile_eq_self_iff.2 parts]
  | cons x rest =>
    obtain rfl := (endsLine_cons x rest).1 ends
    simp [string, List.takeWhile_append_of_pos parts, isStringPart]

/-- Behind an opening quote the string is closed on its line or ended by it. -/
theorem exists_content (cs : List Char) : ∃ content rest, cs = content ++ rest ∧
    (∀ x ∈ content, x ≠ '"' ∧ x ≠ '\n') ∧ (EndsLine rest ∨ ∃ more, rest = '"' :: more) := by
  have inside : ∀ x ∈ cs.takeWhile isStringPart, x ≠ '"' ∧ x ≠ '\n' := by
    intro x hx
    exact (isStringPart_iff x).1 (List.mem_takeWhile_imp hx)
  refine ⟨cs.takeWhile isStringPart, cs.dropWhile isStringPart,
    List.takeWhile_append_dropWhile.symm, inside, ?_⟩
  have stopped := List.head?_dropWhile_not isStringPart cs
  cases h : cs.dropWhile isStringPart with
  | nil => exact .inl endsLine_nil
  | cons x more =>
    rw [h] at stopped
    by_cases quote : x = '"'
    · exact .inr ⟨more, by rw [quote]⟩
    · left
      simpa [isStringPart, quote] using stopped

/-- A number that begins with some digits takes all that follow, and a fraction behind them. -/
theorem number_whole {ds : List Char} (digits : Numeral ds) (rest : List Char) :
    ∃ more literal, number (ds ++ rest) = ⟨ds ++ more, .ok (.number, literal)⟩ ∧
      (more = [] → literal = .number (Binary64.ofNumeral ds [])) := by
  rw [number, List.takeWhile_append_of_pos digits.isDigit,
    List.dropWhile_append_of_pos digits.isDigit]
  split_ifs with hf
  · have noPlaces : fractionDigits (rest.dropWhile isDigit) = [] := List.isEmpty_iff.1 hf
    refine ⟨rest.takeWhile isDigit, _, rfl, ?_⟩
    intro none
    simp [none, noPlaces]
  · exact ⟨rest.takeWhile isDigit ++ '.' :: fractionDigits (rest.dropWhile isDigit), _,
      by rw [List.append_assoc], by simp⟩

/-- A number with a point takes all the digits behind the point. -/
theorem number_fraction {ds fs : List Char} (digits : Numeral ds) (places : Numeral fs)
    (rest : List Char) :
    number (ds ++ '.' :: (fs ++ rest)) =
      ⟨ds ++ '.' :: (fs ++ rest.takeWhile isDigit),
        .ok (.number, .number (Binary64.ofNumeral ds (fs ++ rest.takeWhile isDigit)))⟩ := by
  have point : isDigit '.' = false := by decide
  have more : fractionDigits ('.' :: (fs ++ rest)) = fs ++ rest.takeWhile isDigit :=
    List.takeWhile_append_of_pos places.isDigit
  rw [number, List.takeWhile_append_of_pos digits.isDigit,
    List.dropWhile_append_of_pos digits.isDigit]
  simp [point, more, places.ne_nil]

theorem first_word {x : Char} {cs l rest : List Char} (w : Word l) (same : x :: cs = l ++ rest) :
    first x cs = word (l ++ rest) := by
  obtain ⟨y, ys, rfl, hy, -⟩ := w
  obtain ⟨rfl, -⟩ := List.cons.inj same
  rw [first_letter ((isWordStart_iff x).2 hy), same]

/-- A mark that stands alone, the slash, or an operator without or with an equals sign. -/
theorem fixedLexemes_cases : ∀ p ∈ fixedLexemes, (∃ q ∈ singleMarks, p = ([q.1], q.2)) ∨
    p = (['/'], .slash) ∨ (∃ q ∈ operatorMarks, p = ([q.1], q.2.1)) ∨
    ∃ q ∈ operatorMarks, p = ([q.1, '='], q.2.2) := by
  decide

/-- Where a lexeme stands at the head of a text, the reading is a token at least as long, and it is
the token of that lexeme if it is no longer. -/
theorem first_extends {x : Char} {cs l rest : List Char} {type : TokenType} {literal : Literal}
    (h : Lexeme l type literal) (same : x :: cs = l ++ rest) :
    ∃ more type' literal', first x cs = ⟨l ++ more, .ok (type', literal')⟩ ∧
      (more = [] → type' = type ∧ literal' = literal) := by
  cases h with
  | fixed listed =>
    rcases fixedLexemes_cases _ listed with ⟨q, hq, hp⟩ | hp | ⟨q, hq, hp⟩ | ⟨q, hq, hp⟩ <;>
      obtain ⟨rfl, rfl⟩ := Prod.mk.inj hp <;> obtain ⟨rfl, rfl⟩ := List.cons.inj same
    · exact ⟨[], q.2, .null, first_single hq _, by simp⟩
    · exact ⟨[], .slash, .null, first_slash _, by simp⟩
    · rw [first_operator hq]
      split_ifs
      · exact ⟨['='], q.2.2, .null, rfl, by simp⟩
      · exact ⟨[], q.2.1, .null, rfl, by simp⟩
    · exact ⟨[], q.2.2, .null, by rw [first_operator hq]; rfl, by simp⟩
  | string inside =>
    rename_i content
    obtain ⟨rfl, hcs⟩ := List.cons.inj same
    have closed : cs = content ++ '"' :: rest := by simpa using hcs
    refine ⟨[], .string, .text (String.ofList content), ?_, by simp⟩
    rw [first_quote, closed, string_closed inside, List.append_nil]
  | whole digits =>
    obtain ⟨d, ds, rfl⟩ := List.exists_cons_of_ne_nil digits.ne_nil
    obtain ⟨rfl, -⟩ := List.cons.inj same
    obtain ⟨more, literal, read, alone⟩ := number_whole digits rest
    rw [first_digit (digits.isDigit x (by simp)), same, read]
    refine ⟨more, .number, literal, rfl, ?_⟩
    intro none
    exact ⟨rfl, alone none⟩
  | fraction digits places =>
    rename_i ds fs
    obtain ⟨d, ds, rfl⟩ := List.exists_cons_of_ne_nil digits.ne_nil
    obtain ⟨rfl, -⟩ := List.cons.inj same
    refine ⟨rest.takeWhile isDigit, .number,
      .number (Binary64.ofNumeral (x :: ds) (fs ++ rest.takeWhile isDigit)), ?_, ?_⟩
    · have whole : x :: cs = x :: ds ++ '.' :: (fs ++ rest) := by simpa using same
      rw [first_digit (digits.isDigit x (by simp)), whole, number_fraction digits places]
      simp
    · intro none
      simp [none]
  | keyword w reserved =>
    refine ⟨rest.takeWhile isWordPart, _, .null,
      by rw [first_word w same, word, plain, List.takeWhile_append_of_pos w.all], ?_⟩
    intro none
    simp [none, reserved, Keyword.ofText?_text]
  | identifier w free =>
    refine ⟨rest.takeWhile isWordPart, _, .null,
      by rw [first_word w same, word, plain, List.takeWhile_append_of_pos w.all], ?_⟩
    intro none
    have unreserved : Keyword.ofText? (String.ofList l) = .none := by
      rw [Option.eq_none_iff_forall_ne_some]
      intro k hk
      exact free k (Keyword.text_of_ofText? hk).symm
    simp [none, unreserved]

end Reading

theorem Lexeme.unique {cs : List Char} {type type' : TokenType} {literal literal' : Literal}
    (h : Lexeme cs type literal) (h' : Lexeme cs type' literal') :
    type = type' ∧ literal = literal' := by
  obtain ⟨x, rest, rfl⟩ := List.exists_cons_of_ne_nil h.ne_nil
  obtain ⟨more, t, v, read, alone⟩ := Reading.first_extends h (List.append_nil _).symm
  obtain ⟨more', t', v', read', alone'⟩ := Reading.first_extends h' (List.append_nil _).symm
  have short := (Reading.first_lexeme_isPrefix x rest).length_le
  have short' := short
  rw [read] at short
  rw [read'] at short'
  simp only [List.length_append] at short short'
  obtain ⟨rfl, rfl⟩ := alone (List.eq_nil_of_length_eq_zero (by omega))
  obtain ⟨rfl, rfl⟩ := alone' (List.eq_nil_of_length_eq_zero (by omega))
  rw [read] at read'
  injection read' with _ verdict
  simpa using verdict

namespace Reading

theorem fractionDigits_isDigit (cs : List Char) : ∀ d ∈ fractionDigits cs, isDigit d = true := by
  intro d hd
  unfold fractionDigits at hd
  split at hd
  · exact List.mem_takeWhile_imp hd
  · simp at hd

theorem lexeme_number {x : Char} (h : isDigit x = true) (cs : List Char) :
    ∃ literal, Lexeme (number (x :: cs)).lexeme .number literal ∧
      (number (x :: cs)).verdict = .ok (.number, literal) := by
  have digits : Numeral ((x :: cs).takeWhile isDigit) := .ofTakeWhile h
  refine ⟨_, ?_, rfl⟩
  simp only [number]
  split_ifs with hf
  · rw [List.isEmpty_iff.1 hf]
    exact .whole digits
  · have places := fractionDigits_isDigit ((x :: cs).dropWhile isDigit)
    apply Lexeme.fraction digits
    constructor
    · simpa using hf
    · intro d hd
      exact (isDigit_iff d).1 (places d hd)

theorem lexeme_word {x : Char} (h : isWordStart x = true) (cs : List Char) :
    ∃ type literal, Lexeme (word (x :: cs)).lexeme type literal ∧
      (word (x :: cs)).verdict = .ok (type, literal) := by
  have w : Word ((x :: cs).takeWhile isWordPart) := .ofTakeWhile h
  refine ⟨_, _, ?_, rfl⟩
  change Lexeme ((x :: cs).takeWhile isWordPart) _ _
  split
  · rename_i found
    exact .keyword w (Keyword.text_of_ofText? found).symm
  · rename_i missing
    apply Lexeme.identifier w
    intro k hk
    rw [hk, Keyword.ofText?_text] at missing
    cases missing

/-- The three outcomes of a reading: a lexeme, a string that its line ends, or a character that no
lexeme starts with. -/
theorem first_cases (x : Char) (cs : List Char) :
    (∃ type literal, Lexeme (first x cs).lexeme type literal ∧
      (first x cs).verdict = .ok (type, literal)) ∨
    (∃ content rest, cs = content ++ rest ∧ '\n' ∉ content ∧ EndsLine rest ∧ x = '"' ∧
      first x cs = ⟨'"' :: content, .error (.unterminatedString (String.ofList content))⟩) ∨
    (x ≠ '"' ∧ first x cs = ⟨[x], .error (.unexpectedCharacter x)⟩) := by
  have single : ∀ q ∈ singleMarks, ([q.1], q.2) ∈ fixedLexemes := by decide
  have operator : ∀ q ∈ operatorMarks, ([q.1], q.2.1) ∈ fixedLexemes ∧
      ([q.1, '='], q.2.2) ∈ fixedLexemes := by decide
  unfold first
  split
  · rename_i found
    exact .inl ⟨_, _, .fixed (single _ (mem_of_lookup found)), rfl⟩
  · rename_i found
    obtain ⟨alone, withEqual⟩ := operator _ (mem_of_lookup found)
    split_ifs
    · exact .inl ⟨_, _, .fixed withEqual, rfl⟩
    · exact .inl ⟨_, _, .fixed alone, rfl⟩
  · split_ifs with slash quote digit letter
    · subst slash
      exact .inl ⟨.slash, .null, .fixed (by decide), rfl⟩
    · subst quote
      obtain ⟨content, rest, rfl, inside, ends | ⟨more, rfl⟩⟩ := exists_content cs
      · have oneLine : '\n' ∉ content := by
          intro h
          exact (inside _ h).2 rfl
        exact .inr (.inl ⟨content, rest, rfl, oneLine, ends, rfl, string_unterminated inside ends⟩)
      · rw [string_closed inside]
        exact .inl ⟨_, _, .string inside, rfl⟩
    · obtain ⟨literal, matched, verdict⟩ := lexeme_number digit cs
      exact .inl ⟨_, _, matched, verdict⟩
    · exact .inl (lexeme_word letter cs)
    · exact .inr (.inr ⟨quote, rfl⟩)

theorem lexeme_of_verdict {x : Char} {cs : List Char} {type : TokenType} {literal : Literal}
    (verdict : (first x cs).verdict = .ok (type, literal)) :
    Lexeme (first x cs).lexeme type literal := by
  rcases first_cases x cs with ⟨type', literal', matched, verdict'⟩ |
    ⟨_, _, _, _, _, _, error⟩ | ⟨-, error⟩
  · rw [verdict'] at verdict
    cases verdict
    exact matched
  · simp [error] at verdict
  · simp [error] at verdict

end Reading
end ScriptFront
