import ScriptFront.Proofs.Standing

/-!
# Tokens written side by side

Lexemes written one behind the other, with any blanks between them, are scanned into their tokens
again unless two of them glue where no blank stands: what follows a lexeme is then taken for more of
it, or two slashes for a comment. In one case it takes three: a number goes on over a dot when the
dot has a digit behind it.
-/
namespace ScriptFront

/-- A lexeme, the token it is written for, and the blanks behind it. -/
structure Spaced where
  type : TokenType
  lexeme : List Char
  literal : Literal
  gap : List Char
  matched : Lexeme lexeme type literal
  blank : ∀ x ∈ gap, x ∈ [' ', '\t', '\r', '\n']

namespace Spaced

def text (p : Spaced) : List Char := p.lexeme ++ p.gap

def tokenOn (p : Spaced) (line : Int) : Token := ⟨p.type, String.ofList p.lexeme, p.literal, line⟩

/-- Lexemes that are not read as two tokens where no blank stands between them. -/
def Glues (p q : Spaced) : Prop :=
  (p.type.isWord = true ∧ (q.type.isWord = true ∨ q.type = .number)) ∨
  (p.type = .number ∧ q.type = .number) ∨
  (p.type ∈ loneOperators ∧ q.lexeme.head? = some '=') ∨
  (p.type = .slash ∧ q.type = .slash)

/-- Lexemes that are one number where no blanks stand between the three of them. -/
def GluesOver (p q r : Spaced) : Prop :=
  p.type = .number ∧ '.' ∉ p.lexeme ∧ q.type = .dot ∧ r.type = .number

/-- `p.GluedTo ps`: no blank keeps `p` from what it glues to at the head of `ps`. -/
def GluedTo (p : Spaced) (ps : List Spaced) : Prop :=
  p.gap = [] ∧ ((∃ q more, ps = q :: more ∧ p.Glues q) ∨
    ∃ q more, ps = q :: more ∧ q.gap = [] ∧ ∃ r more', more = r :: more' ∧ p.GluesOver q r)

end Spaced

def sideBySide (ps : List Spaced) : List Char := ps.flatMap Spaced.text

/-- The tokens on the lines where they stand when the text begins on the given line, and the token
that ends the text. -/
def tokensFrom : Int → List Spaced → List Token
  | line, [] => [.endOn line]
  | line, p :: ps => p.tokenOn line :: tokensFrom (line + p.text.count '\n') ps

/-- Lexemes among which none are glued. -/
structure Apart (ps : List Spaced) : Prop where
  pairs : ∀ p q, [p, q] <:+: ps → p.gap = [] → ¬p.Glues q
  triples : ∀ p q r, [p, q, r] <:+: ps → p.gap = [] → q.gap = [] → ¬p.GluesOver q r

theorem apart_nil : Apart [] := by
  constructor
  · intro p q h
    simp at h
  · intro p q r h
    simp at h

theorem apart_cons (p : Spaced) (ps : List Spaced) :
    Apart (p :: ps) ↔ ¬p.GluedTo ps ∧ Apart ps := by
  constructor
  · intro h
    refine ⟨?_, ?_, ?_⟩
    · rintro ⟨noGap, ⟨q, more, rfl, glues⟩ | ⟨q, more, rfl, noGap', r, more', rfl, glues⟩⟩
      · exact h.pairs p q ⟨[], more, rfl⟩ noGap glues
      · exact h.triples p q r ⟨[], more', rfl⟩ noGap noGap' glues
    · exact fun q r inner => h.pairs q r (List.infix_cons inner)
    · exact fun q r s inner => h.triples q r s (List.infix_cons inner)
  · rintro ⟨free, apart⟩
    constructor
    · intro q r inner noGap glues
      rcases List.infix_cons_iff.1 inner with front | inner
      · obtain ⟨more, same⟩ := front
        obtain ⟨rfl, rfl⟩ := List.cons.inj same
        exact free ⟨noGap, .inl ⟨r, more, rfl, glues⟩⟩
      · exact apart.pairs q r inner noGap glues
    · intro q r s inner noGap noGap' glues
      rcases List.infix_cons_iff.1 inner with front | inner
      · obtain ⟨more, same⟩ := front
        obtain ⟨rfl, rfl⟩ := List.cons.inj same
        exact free ⟨noGap, .inr ⟨r, _, rfl, noGap', s, more, rfl, glues⟩⟩
      · exact apart.triples q r s inner noGap noGap' glues

namespace Spaced

variable (p : Spaced) (ps : List Spaced)

@[simp] theorem sideBySide_nil : sideBySide [] = [] := rfl

@[simp] theorem sideBySide_cons : sideBySide (p :: ps) = p.lexeme ++ (p.gap ++ sideBySide ps) := by
  simp [sideBySide, text]

/-- Right behind a lexeme stands a blank or the head of the next lexeme. -/
theorem head_behind {P : Char → Prop} {Q : Spaced → Prop}
    (noBlank : ∀ x ∈ [' ', '\t', '\r', '\n'], ¬P x)
    (known : ∀ (q : Spaced) x cs, q.lexeme = x :: cs → (P x ↔ Q q)) :
    (∃ x ∈ (p.gap ++ sideBySide ps).head?, P x) ↔
      p.gap = [] ∧ ∃ q more, ps = q :: more ∧ Q q := by
  cases hgap : p.gap with
  | cons y ys =>
    have noHead := noBlank y (p.blank y (by simp [hgap]))
    simp [noHead]
  | nil =>
    cases ps with
    | nil => simp
    | cons q more =>
      obtain ⟨y, ys, same⟩ := List.exists_cons_of_ne_nil q.matched.ne_nil
      simp [same, known q y ys same]

theorem head_iff {q : Spaced} {x : Char} {cs : List Char} (same : q.lexeme = x :: cs) :
    (isWordStart x = true ↔ q.type.isWord = true) ∧ (isDigit x = true ↔ q.type = .number) ∧
      (x = '/' ↔ q.type = .slash) ∧ (x = '.' ↔ q.type = .dot) := by
  have matched := q.matched
  rw [same] at matched
  exact matched.head_iff

theorem digit_behind : (∃ x ∈ (p.gap ++ sideBySide ps).head?, isDigit x = true) ↔
    p.gap = [] ∧ ∃ q more, ps = q :: more ∧ q.type = .number :=
  p.head_behind ps (fun x blank => by simp [blank_apart blank]) fun _ _ _ same => (head_iff same).2.1

theorem word_behind : (∃ x ∈ (p.gap ++ sideBySide ps).head?, isWordPart x = true) ↔
    p.gap = [] ∧ ∃ q more, ps = q :: more ∧ (q.type.isWord = true ∨ q.type = .number) := by
  apply p.head_behind ps (fun x blank => by simp [blank_apart blank])
  intro q x cs same
  obtain ⟨letter, digit, -⟩ := head_iff same
  rw [isWordPart, Bool.or_eq_true, letter, digit]

theorem equals_behind : (∃ x ∈ (p.gap ++ sideBySide ps).head?, x = '=') ↔
    p.gap = [] ∧ ∃ q more, ps = q :: more ∧ q.lexeme.head? = some '=' := by
  apply p.head_behind ps (fun x blank => by simp [blank_apart blank])
  intro q x cs same
  simp [same]

theorem slash_behind : (∃ x ∈ (p.gap ++ sideBySide ps).head?, x = '/') ↔
    p.gap = [] ∧ ∃ q more, ps = q :: more ∧ q.type = .slash :=
  p.head_behind ps (fun x blank => by simp [blank_apart blank]) fun _ _ _ same => (head_iff same).2.2.1

theorem point_behind :
    (∃ more, p.gap ++ sideBySide ps = '.' :: more ∧ ∃ x ∈ more.head?, isDigit x = true) ↔
      p.gap = [] ∧ ∃ q more, ps = q :: more ∧ q.gap = [] ∧
        ∃ r more', more = r :: more' ∧ q.type = .dot ∧ r.type = .number := by
  have point : (∃ x ∈ (p.gap ++ sideBySide ps).head?, x = '.') ↔
      p.gap = [] ∧ ∃ q more, ps = q :: more ∧ q.type = .dot :=
    p.head_behind ps (fun x blank => by simp [blank_apart blank]) fun _ _ _ same => (head_iff same).2.2.2
  have alone : ∀ {q : Spaced}, q.type = .dot → q.lexeme = ['.'] := by
    intro q dot
    exact q.matched.spelled (dot ▸ by decide)
  constructor
  · rintro ⟨more, same, digit⟩
    obtain ⟨noGap, q, qs, rfl, dot⟩ := point.1 ⟨'.', by rw [same]; rfl, rfl⟩
    rw [noGap, List.nil_append, sideBySide_cons, alone dot] at same
    obtain ⟨-, rfl⟩ := List.cons.inj same
    obtain ⟨noGap', r, more', rfl, number⟩ := (q.digit_behind qs).1 digit
    exact ⟨noGap, q, _, rfl, noGap', r, more', rfl, dot, number⟩
  · rintro ⟨noGap, q, _, rfl, noGap', r, more', rfl, dot, number⟩
    refine ⟨q.gap ++ sideBySide (r :: more'), ?_, ?_⟩
    · rw [noGap, List.nil_append, sideBySide_cons, alone dot]
      rfl
    · exact (q.digit_behind _).2 ⟨noGap', r, more', rfl, number⟩

/-- A lexeme is glued where it goes on in the text behind it, or makes a comment with it. -/
theorem gluedTo_iff : p.GluedTo ps ↔ GoesOn p.lexeme p.type (p.gap ++ sideBySide ps) ∨
    (p.type = .slash ∧ ∃ x ∈ (p.gap ++ sideBySide ps).head?, x = '/') := by
  rw [GoesOn, word_behind, digit_behind, point_behind, equals_behind, slash_behind]
  constructor
  · rintro ⟨noGap, ⟨q, more, same, glues⟩ | ⟨q, more, same, noGap', r, more', same', number, whole,
      dot, digits⟩⟩
    · rcases glues with ⟨word, next⟩ | ⟨number, next⟩ | ⟨lone, next⟩ | ⟨slash, next⟩
      · exact .inl (.inl ⟨word, noGap, q, more, same, next⟩)
      · exact .inl (.inr (.inl ⟨number, noGap, q, more, same, next⟩))
      · exact .inl (.inr (.inr (.inr ⟨lone, noGap, q, more, same, next⟩)))
      · exact .inr ⟨slash, noGap, q, more, same, next⟩
    · exact .inl (.inr (.inr (.inl ⟨number, whole, noGap, q, more, same, noGap', r, more', same',
        dot, digits⟩)))
  · rintro ((⟨word, noGap, q, more, same, next⟩ | ⟨number, noGap, q, more, same, next⟩ |
      ⟨number, whole, noGap, q, more, same, noGap', r, more', same', dot, digits⟩ |
      ⟨lone, noGap, q, more, same, next⟩) | ⟨slash, noGap, q, more, same, next⟩)
    · exact ⟨noGap, .inl ⟨q, more, same, .inl ⟨word, next⟩⟩⟩
    · exact ⟨noGap, .inl ⟨q, more, same, .inr (.inl ⟨number, next⟩)⟩⟩
    · exact ⟨noGap, .inr ⟨q, more, same, noGap', r, more', same', number, whole, dot, digits⟩⟩
    · exact ⟨noGap, .inl ⟨q, more, same, .inr (.inr (.inl ⟨lone, next⟩))⟩⟩
    · exact ⟨noGap, .inl ⟨q, more, same, .inr (.inr (.inr ⟨slash, next⟩))⟩⟩

variable {p ps}

theorem triviaLength_eq
    (noComment : p.type = .slash → ¬∃ x ∈ (p.gap ++ sideBySide ps).head?, x = '/') :
    Cursor.triviaLength false (p.lexeme ++ (p.gap ++ sideBySide ps)) = 0 := by
  by_cases slash : p.type = .slash
  · have spelled : p.lexeme = ['/'] := p.matched.spelled (slash ▸ by decide)
    rw [spelled, List.singleton_append, Cursor.triviaLength_cons_eq_zero]
    exact ⟨by decide, fun slashes => noComment slash ⟨'/', slashes.2, rfl⟩⟩
  · exact p.matched.triviaLength_append slash _

/-- A lexeme that is not glued stands in front of the text behind it. -/
theorem stands (free : ¬p.GluedTo ps) :
    Reading.Stands ⟨p.lexeme, .ok (p.type, p.literal)⟩ (p.gap ++ sideBySide ps) where
  munch := .of_not_goesOn p.matched fun goesOn => free ((gluedTo_iff p ps).2 (.inl goesOn))
  stop := triviaLength_eq fun slash next => free ((gluedTo_iff p ps).2 (.inr ⟨slash, next⟩))

theorem trivia_of_blanks {gap : List Char} (blank : ∀ x ∈ gap, x ∈ [' ', '\t', '\r', '\n'])
    (rest : List Char) : Trivia gap rest := by
  induction gap with
  | nil => exact .none
  | cons x gap ih =>
    obtain ⟨first, others⟩ := List.forall_mem_cons.1 blank
    exact .blank first (ih others)

/-- The first item is a lexeme that is not glued, and the next items are those of the text behind
it. -/
theorem items_cons (free : ¬p.GluedTo ps) (position : Nat) (line : Int) :
    Cursor.items ⟨sideBySide (p :: ps), position, line⟩ =
      ⟨position, line, ⟨p.lexeme, .ok (p.type, p.literal)⟩⟩ ::
        Cursor.items ⟨sideBySide ps, position + p.text.length, line + p.text.count '\n'⟩ := by
  have behind : line + p.text.count '\n' = line + p.lexeme.count '\n' + p.gap.count '\n' := by
    rw [text, List.count_append]
    push_cast
    omega
  rw [behind, text, List.length_append, ← Nat.add_assoc,
    ← Cursor.items_of_trivia (trivia_of_blanks p.blank _), sideBySide_cons]
  exact (stands free).items_eq position line

/-- Where a lexeme goes on, the first token found is another one. -/
theorem exists_token_ne (goesOn : GoesOn p.lexeme p.type (p.gap ++ sideBySide ps))
    (position : Nat) (line : Int) :
    ∃ t ts, (Cursor.items ⟨sideBySide (p :: ps), position, line⟩).filterMap Item.token? = t :: ts ∧
      t ≠ p.tokenOn line := by
  have stop : Cursor.triviaLength false (p.lexeme ++ (p.gap ++ sideBySide ps)) = 0 := by
    apply triviaLength_eq
    intro slash
    rw [slash] at goesOn
    rcases goesOn with ⟨word, -⟩ | ⟨number, -⟩ | ⟨number, -⟩ | ⟨lone, -⟩
    · cases word
    · cases number
    · cases number
    · exact absurd lone (by decide)
  obtain ⟨x, cs, same⟩ := List.exists_cons_of_ne_nil
    (List.append_ne_nil_of_left_ne_nil p.matched.ne_nil (p.gap ++ sideBySide ps))
  obtain ⟨rest, split⟩ := Reading.first_lexeme_isPrefix x cs
  obtain ⟨more, type, literal, read, -⟩ := Reading.first_extends p.matched same.symm
  have longer : (Reading.first x cs).lexeme ≠ p.lexeme := fun kept =>
    (Reading.lexeme_first_eq p.matched same.symm).1 kept goesOn
  rw [same] at stop
  rw [sideBySide_cons, same, Cursor.items_read stop split position line]
  rw [read] at longer ⊢
  refine ⟨_, _, List.filterMap_cons_some rfl, ?_⟩
  rw [tokenOn, ne_eq, Token.mk.injEq]
  rintro ⟨-, kept, -⟩
  exact longer (String.ofList_injective kept)

/-- Behind two slashes no token stands on their line. -/
theorem lt_line_of_comment {cs : List Char} {position : Nat} {line : Int} {i : Item}
    (found : i ∈ Cursor.items ⟨'/' :: '/' :: cs, position, line⟩) : line < i.line := by
  obtain ⟨body, rest, rfl, oneLine, ends⟩ := exists_line cs
  have comment : Trivia ('/' :: '/' :: (body ++ [])) rest := .comment oneLine ends .none
  rw [show '/' :: '/' :: (body ++ rest) = '/' :: '/' :: (body ++ []) ++ rest by simp,
    Cursor.items_of_trivia comment] at found
  cases rest with
  | nil => simp [Cursor.items_of_all_trivia .none] at found
  | cons x more =>
    obtain rfl := (endsLine_cons x more).1 ends
    have newline : Trivia ['\n'] more := .blank (by simp) .none
    rw [← List.singleton_append, Cursor.items_of_trivia newline] at found
    have below := Cursor.line_le_of_mem_items found
    simp only [List.count_singleton_self] at below
    omega

theorem tokens_ne (glued : p.GluedTo ps) (position : Nat) (line last : Int) :
    (Cursor.items ⟨sideBySide (p :: ps), position, line⟩).filterMap Item.token? ++ [.endOn last] ≠
      tokensFrom line (p :: ps) := by
  intro same
  rcases (gluedTo_iff p ps).1 glued with goesOn | ⟨slash, next⟩
  · obtain ⟨t, ts, found, other⟩ := exists_token_ne goesOn position line
    rw [found] at same
    exact other (List.cons.inj same).1
  · -- The first slash stands on a line where the comment has left nothing.
    have spelled : p.lexeme = ['/'] := p.matched.spelled (slash ▸ by decide)
    obtain ⟨x, hx, rfl⟩ := next
    obtain ⟨cs, behind⟩ := List.head?_eq_some_iff.1 hx
    have first : p.tokenOn line ∈ tokensFrom line (p :: ps) := List.mem_cons_self
    rw [← same, sideBySide_cons, spelled, behind, List.mem_append] at first
    rcases first with found | last
    · obtain ⟨i, mem, token⟩ := List.mem_filterMap.1 found
      have below := lt_line_of_comment mem
      rw [← Item.line_of_token? token] at below
      exact Int.lt_irrefl line below
    · exact p.matched.type_ne_eof (congrArg Token.type (List.mem_singleton.1 last))

end Spaced

/-- From any place on, exactly the texts with no lexemes glued are scanned into their tokens. -/
theorem items_iff_apart (filename : String) (ps : List Spaced) (position : Nat) (line : Int) :
    ((Cursor.items ⟨sideBySide ps, position, line⟩).filterMap Item.token? ++
          [.endOn (line + (sideBySide ps).count '\n')] = tokensFrom line ps ∧
        (Cursor.items ⟨sideBySide ps, position, line⟩).filterMap (Item.error? filename) = []) ↔
      Apart ps := by
  induction ps generalizing position line with
  | nil =>
    simp [tokensFrom, Cursor.items_of_all_trivia .none, apart_nil]
  | cons p ps ih =>
    rw [apart_cons]
    by_cases glued : p.GluedTo ps
    · refine iff_of_false ?_ fun apart => apart.1 glued
      exact fun found => Spaced.tokens_ne glued position line _ found.1
    · have last : line + (sideBySide (p :: ps)).count '\n' =
          line + p.text.count '\n' + (sideBySide ps).count '\n' := by
        rw [sideBySide, List.flatMap_cons, List.count_append]
        push_cast
        rw [sideBySide]
        omega
      have rest := ih (position + p.text.length) (line + p.text.count '\n')
      rw [Spaced.items_cons glued, last]
      simpa [glued, Item.token?, Item.error?, tokensFrom, Spaced.tokenOn] using rest

/-- Lexemes with blanks between them are scanned without an error into exactly their tokens, each on
its line, if and only if none of them are glued. -/
theorem scan_sideBySide_iff (ps : List Spaced) (filename : String) :
    scan (.text (String.ofList (sideBySide ps))) filename = ⟨tokensFrom 1 ps, []⟩ ↔ Apart ps := by
  have found := items_iff_apart filename ps 0 1
  rw [scan_eq, Scanned.mk.injEq, Source.chars, String.toList_ofList]
  exact found

end ScriptFront
