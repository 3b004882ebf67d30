import ScriptFront.Proofs.Grammar
import ScriptFront.Proofs.NumberText
import ScriptFront.Proofs.Standing

/-!
# Expressions written out

An expression written as a script, with nothing between its lexemes. Scanning the script and reading
its tokens gives the expression back, at any depth: each lexeme is the longest one where it stands,
the text of a number is read as that number, and behind a literal there is a right parenthesis or
the end.
-/
namespace ScriptFront

theorem Keyword.word_text (k : Keyword) : Word k.text.toList := by
  have letters : ∀ k ∈ Keyword.all, k.text.toList ≠ [] ∧ k.text.toList.all isWordStart = true := by
    decide
  obtain ⟨ne_nil, letter⟩ := letters k k.mem_all
  obtain ⟨x, more, same⟩ := List.exists_cons_of_ne_nil ne_nil
  rw [same] at letter ⊢
  rw [List.all_eq_true] at letter
  refine ⟨x, more, rfl, (isWordStart_iff x).1 (letter x (by simp)), ?_⟩
  intro y hy
  exact .inl ((isWordStart_iff y).1 (letter y (List.mem_cons_of_mem x hy)))

theorem Keyword.lexeme_text (k : Keyword) : Lexeme k.text.toList (.keyword k) .null :=
  .keyword k.word_text String.ofList_toList

namespace Atom

/-- How a literal is written in a script. -/
def source : Atom → String
  | string s => "\"" ++ s ++ "\""
  | value => value.text

/-- A literal that a script can hold: no number with a sign, and no string with a quote or a line
feed in it. -/
inductive Writable : Atom → Prop
  | boolean (b : Bool) : Writable (boolean b)
  | number (rank : Fin rankBound) : Writable (number (.finite false rank))
  | string {s : String} (inside : ∀ x ∈ s.toList, x ≠ '"' ∧ x ≠ '\n') : Writable (string s)
  | nil : Writable nil

def token (value : Atom) : Token :=
  match value with
  | boolean true => ⟨.keyword .trueWord, value.source, .null, 1⟩
  | boolean false => ⟨.keyword .falseWord, value.source, .null, 1⟩
  | number x => ⟨.number, value.source, .number x, 1⟩
  | string s => ⟨.string, value.source, .text s, 1⟩
  | nil => ⟨.keyword .nilWord, value.source, .null, 1⟩

theorem denotes_token (value : Atom) : value.token.Denotes value := by
  cases value with
  | boolean b => cases b <;> constructor <;> rfl
  | number x => exact .number rfl rfl
  | string s => exact .string rfl rfl
  | nil => exact .nil rfl

theorem token_eq (value : Atom) :
    value.token = ⟨value.token.type, value.source, value.token.literal, 1⟩ := by
  rcases value with ⟨_ | _⟩ | _ | _ | _ <;> rfl

theorem type_token_ne (value : Atom) : ∀ p ∈ fixedLexemes, p.2 ≠ value.token.type := by
  have apart : ∀ p ∈ fixedLexemes, p.2 ≠ .number ∧ p.2 ≠ .string ∧ p.2.isKeyword = false := by
    decide
  intro p listed
  obtain ⟨number, string, keyword⟩ := apart p listed
  rcases value with ⟨_ | _⟩ | x | s | _
  · intro same
    simp [same, token, TokenType.isKeyword] at keyword
  · intro same
    simp [same, token, TokenType.isKeyword] at keyword
  · exact number
  · exact string
  · intro same
    simp [same, token, TokenType.isKeyword] at keyword

theorem Writable.lexeme_source {value : Atom} (h : value.Writable) :
    Lexeme value.source.toList value.token.type value.token.literal := by
  cases h with
  | boolean b =>
    cases b with
    | false => exact Keyword.falseWord.lexeme_text
    | true => exact Keyword.trueWord.lexeme_text
  | number rank => exact Binary64.lexeme_canonical rank
  | @string s inside =>
    have quoted : (Atom.source (.string s)).toList = '"' :: (s.toList ++ ['"']) := by
      simp [source]
    have matched := Lexeme.string inside
    rw [String.ofList_toList] at matched
    rw [quoted]
    exact matched
  | nil => exact Keyword.nilWord.lexeme_text

end Atom

/-- In front of `behind` the text `cs` is on one line, and is scanned into `ts` without an error. -/
structure ScansTo (cs behind : List Char) (ts : List Token) : Prop where
  oneLine : '\n' ∉ cs
  items (filename : String) (position : Nat) :
    ∃ is, Cursor.items ⟨cs ++ behind, position, 1⟩ =
        is ++ Cursor.items ⟨behind, position + cs.length, 1⟩ ∧
      is.filterMap Item.token? = ts ∧ is.filterMap (Item.error? filename) = []

theorem ScansTo.append {cs cs' behind : List Char} {ts ts' : List Token}
    (h : ScansTo cs (cs' ++ behind) ts) (h' : ScansTo cs' behind ts') :
    ScansTo (cs ++ cs') behind (ts ++ ts') where
  oneLine := by
    rw [List.mem_append]
    exact not_or.2 ⟨h.oneLine, h'.oneLine⟩
  items filename position := by
    obtain ⟨is, split, found, none⟩ := h.items filename position
    obtain ⟨is', split', found', none'⟩ := h'.items filename (position + cs.length)
    refine ⟨is ++ is', ?_, by rw [List.filterMap_append, found, found'],
      by rw [List.filterMap_append, none, none', List.append_nil]⟩
    rw [List.append_assoc, split, split', List.append_assoc, List.length_append, Nat.add_assoc]

/-- A lexeme at the head of a text is one token, unless it may begin a comment. -/
theorem ScansTo.lexeme {l behind : List Char} {type : TokenType} {literal : Literal}
    (matched : Lexeme l type literal) (noSlash : type ≠ .slash)
    (munch : Munch (l ++ behind) ⟨l, .ok (type, literal)⟩) :
    ScansTo l behind [⟨type, String.ofList l, literal, 1⟩] where
  oneLine := matched.newline_not_mem
  items filename position := by
    have stands : Reading.Stands ⟨l, .ok (type, literal)⟩ behind :=
      ⟨munch, matched.triviaLength_append noSlash behind⟩
    have line : l.count '\n' = 0 := List.count_eq_zero.2 matched.newline_not_mem
    have read := stands.items_eq position 1
    rw [line] at read
    exact ⟨[_], read, rfl, rfl⟩

/-- A mark that the first character alone decides on is one token. -/
theorem ScansTo.mark {x : Char} {behind : List Char} {type : TokenType}
    (listed : ([x], type) ∈ fixedLexemes) (noSlash : type ≠ .slash)
    (read : Reading.first x behind = .plain [x] type) :
    ScansTo [x] behind [⟨type, String.ofList [x], .null, 1⟩] := by
  have munch := munch_first x behind
  rw [read] at munch
  exact .lexeme (.fixed listed) noSlash munch

/-- A script that is scanned to its end has these tokens, and no errors. -/
theorem ScansTo.scan_eq {text : String} {ts : List Token} (h : ScansTo text.toList [] ts)
    (filename : String) : scan (.text text) filename = ⟨ts ++ [.endOn 1], []⟩ := by
  obtain ⟨is, split, tokens, errors⟩ := h.items filename 0
  rw [List.append_nil, Cursor.items_of_all_trivia .none, List.append_nil] at split
  have lines : text.toList.count '\n' = 0 := List.count_eq_zero.2 h.oneLine
  rw [ScriptFront.scan_eq, Source.chars, Cursor.start, split, tokens, errors, lines]
  rfl

/-- A literal is scanned into its token, where a delimiter or nothing follows. -/
theorem Atom.Writable.scansTo_source {value : Atom} (h : value.Writable) {behind : List Char}
    (delimited : ∀ x ∈ behind.head?, Delimiter x) :
    ScansTo value.source.toList behind [value.token] := by
  have matched := h.lexeme_source
  have noSlash := (value.type_token_ne (['/'], .slash) (by decide)).symm
  have munch := Munch.of_not_goesOn matched (not_goesOn_of_delimiter delimited)
  have found := ScansTo.lexeme matched noSlash munch
  rw [String.ofList_toList, ← value.token_eq] at found
  exact found

/-- The canonical form of a double without a sign is scanned as one number, which is that double; and
that of a double with a sign, zero among them, is a minus and the form of the double without it. -/
theorem Binary64.scan_canonical (rank : Fin rankBound) (filename : String) :
    scan (.text (canonical (finite false rank))) filename =
      ⟨[⟨.number, canonical (finite false rank), .number (finite false rank), 1⟩, .endOn 1], []⟩ ∧
    canonical (finite true rank) = "-" ++ canonical (negate (finite true rank)) := by
  constructor
  · have alone : ScansTo (canonical (finite false rank)).toList [] [Atom.token (.number _)] :=
      (Atom.Writable.number rank).scansTo_source (by simp)
    exact alone.scan_eq filename
  · rw [← String.toList_inj]
    simp [canonical, negate, signed]

namespace Expr

/-- The expression as a script, with nothing between its lexemes. -/
def source : Expr → String
  | literal value _ => value.source
  | grouping inner _ => "(" ++ inner.source ++ ")"
  | unary operator operand _ => operator.lexeme ++ operand.source

/-- An expression that a script can hold: its operators are signs, whatever else their tokens say,
and its literal can be written. -/
inductive Writable : Expr → Prop
  | literal {value : Atom} {line : Int} (atom : value.Writable) : Writable (literal value line)
  | grouping {inner : Expr} {line : Int} (within : Writable inner) : Writable (grouping inner line)
  | unary {operator : Token} {operand : Expr} {line : Int}
      (sign : (operator.type = .bang ∧ operator.lexeme = "!") ∨
        (operator.type = .minus ∧ operator.lexeme = "-")) (within : Writable operand) :
      Writable (unary operator operand line)

def tokens : Expr → List Token
  | literal value _ => [value.token]
  | grouping inner _ =>
    ⟨.leftParen, "(", .null, 1⟩ :: (inner.tokens ++ [⟨.rightParen, ")", .null, 1⟩])
  | unary operator operand _ => ⟨operator.type, operator.lexeme, .null, 1⟩ :: operand.tokens

/-- The expression without lines, and with nothing of its operators but type and lexeme. -/
def bare : Expr → Expr
  | literal value _ => literal value 0
  | grouping inner _ => grouping inner.bare 0
  | unary operator operand _ => unary ⟨operator.type, operator.lexeme, .null, 0⟩ operand.bare 0

theorem bare_congr {e e' : Expr} (h : e.withoutLines = e'.withoutLines) : e.bare = e'.bare := by
  induction e generalizing e' with
  | literal value line =>
    cases e' <;> simp only [withoutLines, literal.injEq, reduceCtorEq] at h
    rw [bare, bare, h.1]
  | grouping inner line ih =>
    cases e' <;> simp only [withoutLines, grouping.injEq, reduceCtorEq] at h
    rw [bare, bare, ih h.1]
  | unary operator operand line ih =>
    cases e' <;> simp only [withoutLines, unary.injEq, reduceCtorEq] at h
    rw [bare, bare, h.1, ih h.2.1]

theorem textFrom_bare (e : Expr) (written : String) (depth : Nat) :
    textFrom written depth e.bare = textFrom written depth e := by
  induction e generalizing written depth with
  | literal value line => rfl
  | grouping inner line ih => exact ih _ _
  | unary operator operand line ih => exact ih _ _

/-- The text of an expression does not depend on what is left out. -/
theorem text_bare (e : Expr) : e.bare.text = e.text := textFrom_bare e "" 0

theorem derives_tokens {e : Expr} (h : e.Writable) :
    ∃ e', Derives e.tokens e' ∧ e'.bare = e.bare := by
  induction h with
  | @literal value line atom =>
    exact ⟨literal value line, .literal value.denotes_token, rfl⟩
  | @grouping inner line _ ih =>
    obtain ⟨inner', derives, same⟩ := ih
    exact ⟨grouping inner' line, .grouping rfl derives rfl, by rw [bare, bare, same]⟩
  | @unary operator operand line sign _ ih =>
    obtain ⟨operand', derives, same⟩ := ih
    have type : operator.type = .bang ∨ operator.type = .minus := sign.imp And.left And.left
    exact ⟨unary ⟨operator.type, operator.lexeme, .null, 1⟩ operand' line, .unary type derives,
      by rw [bare, bare, same]⟩

theorem head?_source_ne {e : Expr} (h : e.Writable) (behind : List Char) :
    (e.source.toList ++ behind).head? ≠ some '=' := by
  cases h with
  | @literal value line atom =>
    have matched := atom.lexeme_source
    have first := matched.head?_ne_equal fun listed => value.type_token_ne _ listed rfl
    obtain ⟨x, cs, same⟩ := List.exists_cons_of_ne_nil matched.ne_nil
    rw [same] at first
    rw [source, same]
    exact first
  | grouping within => simp [source]
  | unary sign within =>
    rcases sign with ⟨-, sign⟩ | ⟨-, sign⟩ <;> simp [source, sign]

/-- The script of an expression is scanned into its tokens, where a right parenthesis or nothing
follows. -/
theorem scansTo_source {e : Expr} (h : e.Writable) {behind : List Char}
    (ends : ∀ x ∈ behind.head?, x = ')') : ScansTo e.source.toList behind e.tokens := by
  induction h generalizing behind with
  | @literal value line atom =>
    apply atom.scansTo_source
    intro x hx
    exact .inr (ends x hx)
  | @grouping inner line _ ih =>
    have text : (grouping inner line).source.toList = ['('] ++ (inner.source.toList ++ [')']) := by
      simp [source]
    have opens : ScansTo ['('] (inner.source.toList ++ [')'] ++ behind)
        [⟨.leftParen, "(", .null, 1⟩] :=
      .mark (by decide) (by decide) (Reading.first_single (q := ('(', .leftParen)) (by decide) _)
    have closes : ScansTo [')'] behind [⟨.rightParen, ")", .null, 1⟩] :=
      .mark (by decide) (by decide) (Reading.first_single (q := (')', .rightParen)) (by decide) _)
    have within : ScansTo inner.source.toList ([')'] ++ behind) inner.tokens := ih (by simp)
    rw [text]
    exact opens.append (within.append closes)
  | @unary operator operand line sign within ih =>
    have text : (unary operator operand line).source.toList =
        operator.lexeme.toList ++ operand.source.toList := by
      simp [source]
    have sign : ScansTo operator.lexeme.toList (operand.source.toList ++ behind)
        [⟨operator.type, operator.lexeme, .null, 1⟩] := by
      rcases sign with ⟨type, lexeme⟩ | ⟨type, lexeme⟩
      · have alone := Reading.first_operator (q := ('!', .bang, .bangEqual)) (by decide)
          (operand.source.toList ++ behind)
        rw [if_neg (head?_source_ne within behind)] at alone
        rw [type, lexeme]
        exact .mark (by decide) (by decide) alone
      · rw [type, lexeme]
        exact .mark (by decide) (by decide)
          (Reading.first_single (q := ('-', .minus)) (by decide) _)
    rw [text]
    exact sign.append (ih ends)

/-- The script of an expression is scanned and read as that expression. No error is met and nothing
but the end of the script is left; the tree has the same nodes, with the same operators and the same
values, and so the same text. -/
theorem read_scan_source {e : Expr} (h : e.Writable) (filename : String) :
    ∃ ts found, scan (.text e.source) filename = ⟨ts ++ [.endOn 1], []⟩ ∧
      read (.ofTokens (ts ++ [.endOn 1])) = (.ok found, .place (ts ++ [.endOn 1]) ts.length) ∧
      found.bare = e.bare ∧ found.text = e.text := by
  obtain ⟨e', derives, same⟩ := derives_tokens h
  obtain ⟨found, sameTree, ran⟩ := readUnder_of_derives derives
    (TokenCursor.endingOf (e.tokens ++ [.endOn 1])) [] 0 [.endOn 1]
  have bare : found.bare = e.bare := (bare_congr sameTree).trans same
  refine ⟨e.tokens, found, ?_, ?_, bare, ?_⟩
  · have alone : ScansTo e.source.toList [] e.tokens := scansTo_source h (by simp)
    exact alone.scan_eq filename
  · rw [TokenCursor.ofTokens, read_place, List.drop_zero, ran, close, Nat.zero_add,
      TokenCursor.place, List.drop_left]
  · rw [← text_bare found, bare, text_bare]

/-- A string with a comment mark and a parenthesis in it, under two signs and a grouping. -/
def signedString : Expr :=
  unary ⟨.minus, "-", .text "sign", 7⟩
    (grouping (unary ⟨.bang, "!", .null, 3⟩ (literal (.string "a // )") 2) 5) 1) 4

theorem read_scan_signedString :
    signedString.Writable ∧ signedString.source = "-(!\"a // )\")" ∧
    ∃ ts found, scan (.text signedString.source) "" = ⟨ts ++ [.endOn 1], []⟩ ∧
      read (.ofTokens (ts ++ [.endOn 1])) = (.ok found, .place (ts ++ [.endOn 1]) ts.length) ∧
      found.bare = signedString.bare ∧ found.text = signedString.text := by
  have plain : "a // )".toList.all isStringPart = true := by decide
  have inside : ∀ x ∈ "a // )".toList, x ≠ '"' ∧ x ≠ '\n' := fun x mem =>
    (isStringPart_iff x).1 (List.all_eq_true.1 plain x mem)
  have writable : signedString.Writable :=
    .unary (.inr ⟨rfl, rfl⟩) (.grouping (.unary (.inl ⟨rfl, rfl⟩) (.literal (.string inside))))
  exact ⟨writable, by decide, read_scan_source writable ""⟩

end Expr
end ScriptFront
