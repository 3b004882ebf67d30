import ScriptFront.Proofs.Item
import ScriptFront.Proofs.Lexeme

/-!
# Maximal munch

Lexing by declaration: the longest trivia is left out, then the longest lexeme is a token, and where
no lexeme stands the rest of the line or one character is an error. Scanning does exactly that on
every text.
-/
namespace ScriptFront

def IsLexeme (l : List Char) : Prop := ∃ type literal, Lexeme l type literal

/-- A text that no lexeme is the head of. -/
def NoLexeme (cs : List Char) : Prop := ∀ l rest, l ++ rest = cs → ¬IsLexeme l

/-- `Munch cs r`: `r` is what the rule of the longest lexeme makes of the head of `cs`. -/
inductive Munch : List Char → Reading → Prop
  | token {l rest : List Char} {type : TokenType} {literal : Literal}
      (matched : Lexeme l type literal) (longest : Longest (fun l _ => IsLexeme l) l rest) :
      Munch (l ++ rest) ⟨l, .ok (type, literal)⟩
  | unterminated {content rest : List Char} (none : NoLexeme ('"' :: (content ++ rest)))
      (oneLine : '\n' ∉ content) (ends : EndsLine rest) :
      Munch ('"' :: (content ++ rest))
        ⟨'"' :: content, .error (.unterminatedString (String.ofList content))⟩
  | unexpected {x : Char} {rest : List Char} (none : NoLexeme (x :: rest)) (noQuote : x ≠ '"') :
      Munch (x :: rest) ⟨[x], .error (.unexpectedCharacter x)⟩

/-- `Lexed filename line cs r`: a text that begins on the given line is lexed into `r`. -/
inductive Lexed (filename : String) : Int → List Char → Scanned → Prop
  | done {line : Int} {gap : List Char} (trivia : Longest Trivia gap []) :
      Lexed filename line gap ⟨[.endOn (line + gap.count '\n')], []⟩
  | token {line : Int} {gap l rest : List Char} {type : TokenType} {literal : Literal}
      {r : Scanned} (trivia : Longest Trivia gap (l ++ rest))
      (munch : Munch (l ++ rest) ⟨l, .ok (type, literal)⟩)
      (more : Lexed filename (line + (gap ++ l).count '\n') rest r) :
      Lexed filename line (gap ++ (l ++ rest))
        ⟨⟨type, String.ofList l, literal, line + gap.count '\n'⟩ :: r.tokens, r.errors⟩
  | error {line : Int} {gap l rest : List Char} {cause : ScanError.Cause} {r : Scanned}
      (trivia : Longest Trivia gap (l ++ rest))
      (munch : Munch (l ++ rest) ⟨l, .error cause⟩)
      (more : Lexed filename (line + (gap ++ l).count '\n') rest r) :
      Lexed filename line (gap ++ (l ++ rest))
        ⟨r.tokens, ⟨cause, line + gap.count '\n', some filename⟩ :: r.errors⟩

theorem Munch.ne_nil {cs : List Char} {r : Reading} (h : Munch cs r) : cs ≠ [] := by
  cases h with
  | token matched => simp [matched.ne_nil]
  | unterminated => simp
  | unexpected => simp

/-- The reading that the first character selects is the longest lexeme or the right error. -/
theorem munch_first (x : Char) (cs : List Char) : Munch (x :: cs) (.first x cs) := by
  have none_of_error : ∀ {cause}, (Reading.first x cs).verdict = .error cause →
      NoLexeme (x :: cs) := by
    intro cause verdict l rest same isLexeme
    obtain ⟨type, literal, matched⟩ := isLexeme
    obtain ⟨more, type', literal', read, -⟩ := Reading.first_extends matched same.symm
    rw [read] at verdict
    cases verdict
  rcases Reading.first_cases x cs with ⟨type, literal, matched, verdict⟩ |
    ⟨content, rest, rfl, oneLine, ends, rfl, read⟩ | ⟨noQuote, read⟩
  · obtain ⟨rest, same⟩ := Reading.first_lexeme_isPrefix x cs
    have longest : Longest (fun l _ => IsLexeme l) (Reading.first x cs).lexeme rest := by
      constructor
      · exact ⟨type, literal, matched⟩
      · intro l rest' same' isLexeme
        obtain ⟨type', literal', matched'⟩ := isLexeme
        obtain ⟨more, _, _, read, -⟩ := Reading.first_extends matched' (same'.trans same).symm
        simp [read]
    have token := Munch.token matched longest
    rwa [same, ← verdict] at token
  · rw [read]
    exact .unterminated (none_of_error (by rw [read])) oneLine ends
  · rw [read]
    exact .unexpected (none_of_error (by rw [read])) noQuote

theorem NoLexeme.not_prefix {cs l : List Char} {type : TokenType} {literal : Literal}
    (none : NoLexeme cs) (matched : Lexeme l type literal) : ¬l <+: cs := by
  intro h
  obtain ⟨rest, same⟩ := h
  exact none l rest same ⟨type, literal, matched⟩

theorem Munch.eq_first {x : Char} {cs : List Char} {r : Reading} (h : Munch (x :: cs) r) :
    r = .first x cs := by
  have isPrefix := Reading.first_lexeme_isPrefix x cs
  have cases := Reading.first_cases x cs
  generalize same : x :: cs = text at h isPrefix
  cases h with
  | @token l rest type literal matched longest =>
    obtain ⟨more, type', literal', read, alone⟩ := Reading.first_extends matched same
    rw [read] at cases isPrefix
    obtain ⟨type'', literal'', extended, -⟩ | ⟨_, _, _, _, _, _, error⟩ | ⟨-, error⟩ := cases
    · obtain ⟨rest', same'⟩ := isPrefix
      have short := longest.maximal _ rest' same' ⟨type'', literal'', extended⟩
      rw [List.length_append] at short
      have noMore : more = [] := List.eq_nil_of_length_eq_zero (by omega)
      obtain ⟨rfl, rfl⟩ := alone noMore
      rw [read, noMore, List.append_nil]
    · simp at error
    · simp at error
  | @unterminated content rest none oneLine ends =>
    obtain ⟨rfl, hcs⟩ := List.cons.inj same
    obtain ⟨_, _, matched, -⟩ | ⟨content', rest', hcs', oneLine', ends', -, read⟩ |
      ⟨noQuote, -⟩ := cases
    · exact absurd isPrefix (none.not_prefix matched)
    · have line := (takeWhile_line oneLine ends).1
      rw [← hcs, hcs', (takeWhile_line oneLine' ends').1] at line
      rw [read, line]
    · exact absurd rfl noQuote
  | unexpected none noQuote =>
    obtain ⟨rfl, rfl⟩ := List.cons.inj same
    obtain ⟨_, _, matched, -⟩ | ⟨_, _, _, _, _, quote, -⟩ | ⟨-, read⟩ := cases
    · exact absurd isPrefix (none.not_prefix matched)
    · exact absurd quote noQuote
    · exact read.symm

theorem Munch.unique {cs : List Char} {r r' : Reading} (h : Munch cs r) (h' : Munch cs r') :
    r = r' := by
  obtain ⟨x, rest, rfl⟩ := List.exists_cons_of_ne_nil h.ne_nil
  rw [h.eq_first, h'.eq_first]

/-- A text has one beginning: its trivia, its lexeme and what that is. -/
theorem Munch.split_unique {gap l rest gap' l' rest' : List Char}
    {verdict verdict' : Except ScanError.Cause (TokenType × Literal)}
    (trivia : Longest Trivia gap (l ++ rest)) (munch : Munch (l ++ rest) ⟨l, verdict⟩)
    (trivia' : Longest Trivia gap' (l' ++ rest')) (munch' : Munch (l' ++ rest') ⟨l', verdict'⟩)
    (same : gap ++ (l ++ rest) = gap' ++ (l' ++ rest')) :
    gap = gap' ∧ l = l' ∧ rest = rest' ∧ verdict = verdict' := by
  obtain ⟨rfl, behind⟩ := trivia.unique trivia' same
  rw [← behind] at munch'
  obtain ⟨rfl, rfl⟩ := Reading.mk.inj (munch.unique munch')
  exact ⟨rfl, rfl, List.append_cancel_left behind, rfl⟩

theorem Lexed.unique {filename : String} {line : Int} {cs : List Char} {r r' : Scanned}
    (h : Lexed filename line cs r) (h' : Lexed filename line cs r') : r = r' := by
  induction h generalizing r' with
  | @done line gap trivia =>
    generalize same : gap = text at h'
    cases h' with
    | done trivia' => subst same; rfl
    | token trivia' munch' | error trivia' munch' =>
      obtain ⟨-, behind⟩ := trivia.unique trivia' (by simpa using same)
      exact absurd behind.symm munch'.ne_nil
  | @token line gap l rest type literal r trivia munch more ih =>
    generalize same : gap ++ (l ++ rest) = text at h'
    cases h' with
    | done trivia' =>
      obtain ⟨-, behind⟩ := trivia.unique trivia' (by simpa using same)
      exact absurd behind munch.ne_nil
    | token trivia' munch' more' =>
      obtain ⟨rfl, rfl, rfl, verdict⟩ := Munch.split_unique trivia munch trivia' munch' same
      cases verdict
      rw [ih more']
    | error trivia' munch' =>
      obtain ⟨-, -, -, verdict⟩ := Munch.split_unique trivia munch trivia' munch' same
      cases verdict
  | @error line gap l rest cause r trivia munch more ih =>
    generalize same : gap ++ (l ++ rest) = text at h'
    cases h' with
    | done trivia' =>
      obtain ⟨-, behind⟩ := trivia.unique trivia' (by simpa using same)
      exact absurd behind munch.ne_nil
    | token trivia' munch' =>
      obtain ⟨-, -, -, verdict⟩ := Munch.split_unique trivia munch trivia' munch' same
      cases verdict
    | error trivia' munch' more' =>
      obtain ⟨rfl, rfl, rfl, verdict⟩ := Munch.split_unique trivia munch trivia' munch' same
      cases verdict
      rw [ih more']

/-- The items of a text are what lexing it finds. -/
theorem lexed_items (filename : String) (cs : List Char) (position : Nat) (line : Int) :
    Lexed filename line cs
      ⟨(Cursor.items ⟨cs, position, line⟩).filterMap Item.token? ++
          [.endOn (line + cs.count '\n')],
        (Cursor.items ⟨cs, position, line⟩).filterMap (Item.error? filename)⟩ := by
  induction cs using Cursor.items_induction generalizing position line with
  | trivia gap hgap =>
    rw [Cursor.items_of_all_trivia hgap]
    exact .done (Cursor.longest_trivia hgap rfl)
  | item gap x cs rest hgap stop same ih =>
    have trivia := Cursor.longest_trivia hgap stop
    have munch := munch_first x cs
    have more := ih (position + gap.length + (Reading.first x cs).lexeme.length)
      (line + (gap ++ (Reading.first x cs).lexeme).count '\n')
    have last : line + (gap ++ x :: cs).count '\n' =
        line + (gap ++ (Reading.first x cs).lexeme).count '\n' + rest.count '\n' := by
      rw [← same, ← List.append_assoc, List.count_append]
      push_cast
      omega
    have behind : line + (gap ++ (Reading.first x cs).lexeme).count '\n' =
        line + gap.count '\n' + (Reading.first x cs).lexeme.count '\n' := by
      rw [List.count_append]
      push_cast
      omega
    rw [Cursor.items_of_trivia hgap, Cursor.items_read stop same, last, ← behind]
    rw [← same] at trivia munch ⊢
    cases verdict : (Reading.first x cs).verdict with
    | ok p =>
      have read : Reading.first x cs = ⟨(Reading.first x cs).lexeme, .ok (p.1, p.2)⟩ := by
        rw [← verdict]
      rw [read] at munch
      simp only [List.filterMap_cons, Item.token?, Item.error?, verdict, List.cons_append]
      exact .token trivia munch more
    | error cause =>
      have read : Reading.first x cs = ⟨(Reading.first x cs).lexeme, .error cause⟩ := by
        rw [← verdict]
      rw [read] at munch
      simp only [List.filterMap_cons, Item.token?, Item.error?, verdict]
      exact .error trivia munch more

theorem scan_eq_iff_lexed (source : Source) (filename : String) (r : Scanned) :
    scan source filename = r ↔ Lexed filename 1 source.chars r := by
  have lexed := lexed_items filename source.chars 0 1
  rw [scan_eq]
  constructor
  · intro h
    rwa [← h]
  · intro h
    exact lexed.unique h

end ScriptFront
