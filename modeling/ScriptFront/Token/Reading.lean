import ScriptFront.Token.Basic
import ScriptFront.Token.Mark
import ScriptFront.Diagnostic.ScanError

/-!
# Lexical rules

A rule reads the head of a text. It takes a lexeme, which is a prefix of the text, and says what
the lexeme is: a token of some type with some literal, or the cause of an error. Rules know
nothing of places and lines, and each is applied at once to its longest lexeme.
-/
namespace ScriptFront

/-- What a rule makes of the head of a text. -/
structure Reading where
  lexeme : List Char
  verdict : Except ScanError.Cause (TokenType × Literal)

namespace Reading

/-- A lexeme that is a token without a literal. -/
def plain (lexeme : List Char) (type : TokenType) : Reading := ⟨lexeme, .ok (type, .null)⟩

/-- A string: whatever stands first, then everything up to the next double quote on the same line.
Without such a quote the string is unterminated, and the line feed is left to be read. -/
def string (cs : List Char) : Reading :=
  let content := cs.tail.takeWhile isStringPart
  let opened := cs.take 1 ++ content
  if (cs.drop opened.length).head? = some '"' then
    ⟨opened ++ ['"'], .ok (.string, .text (String.ofList content))⟩
  else ⟨opened, .error (.unterminatedString (String.ofList content))⟩

/-- The digits after a point at the head of a text; there are none without a point. -/
def fractionDigits : List Char → List Char
  | '.' :: cs => cs.takeWhile isDigit
  | _ => []

/-- A number: digits, and a point only where digits follow it. -/
def number (cs : List Char) : Reading :=
  let whole := cs.takeWhile isDigit
  let fraction := fractionDigits (cs.dropWhile isDigit)
  ⟨if fraction.isEmpty then whole else whole ++ '.' :: fraction,
    .ok (.number, .number (Binary64.ofNumeral whole fraction))⟩

/-- A word: a reserved word or else an identifier. -/
def word (cs : List Char) : Reading :=
  let lexeme := cs.takeWhile isWordPart
  plain lexeme (match Keyword.ofText? (String.ofList lexeme) with
    | some k => .keyword k
    | none => .identifier)

/-- The reading of a text by the rule that its first character selects. -/
def first (x : Char) (cs : List Char) : Reading :=
  match singleMarks.lookup x, operatorMarks.lookup x with
  | some type, _ => plain [x] type
  | none, some (alone, withEqual) =>
    if cs.head? = some '=' then plain [x, '='] withEqual else plain [x] alone
  | none, none =>
    if x = '/' then plain [x] .slash
    else if x = '"' then string (x :: cs)
    else if isDigit x then number (x :: cs)
    else if isWordStart x then word (x :: cs)
    else ⟨[x], .error (.unexpectedCharacter x)⟩

theorem concat_isPrefix {head cs : List Char} {x : Char} (h : head <+: cs)
    (follows : (cs.drop head.length).head? = some x) : head ++ [x] <+: cs := by
  obtain ⟨rest, rfl⟩ := h
  rw [List.drop_left] at follows
  cases rest with
  | nil => simp at follows
  | cons y rest =>
    obtain rfl : y = x := by simpa using follows
    exact ⟨rest, by simp⟩

theorem string_lexeme_isPrefix (cs : List Char) : (string cs).lexeme <+: cs := by
  have opened : cs.take 1 ++ cs.tail.takeWhile isStringPart <+: cs := by
    cases cs with
    | nil => simp
    | cons x cs => simpa using List.takeWhile_prefix isStringPart
  simp only [string]
  split
  · exact concat_isPrefix opened (by assumption)
  · exact opened

theorem number_lexeme_isPrefix (cs : List Char) : (number cs).lexeme <+: cs := by
  have whole := List.takeWhile_append_dropWhile (p := isDigit) (l := cs)
  simp only [number]
  split
  · exact ⟨_, whole⟩
  · rename_i fraction
    cases after : cs.dropWhile isDigit with
    | nil => simp [after, fractionDigits] at fraction
    | cons y rest =>
      rw [after] at fraction whole
      unfold fractionDigits at fraction ⊢
      split at fraction
      · rename_i rest' heq
        obtain ⟨rfl, rfl⟩ := List.cons.inj heq
        obtain ⟨tail, h⟩ := List.takeWhile_prefix isDigit (l := rest)
        exact ⟨tail, by rw [List.append_assoc, List.cons_append, h, whole]⟩
      · simp at fraction

theorem word_lexeme_isPrefix (cs : List Char) : (word cs).lexeme <+: cs :=
  List.takeWhile_prefix isWordPart

theorem first_lexeme_isPrefix (x : Char) (cs : List Char) : (first x cs).lexeme <+: x :: cs := by
  have single : [x] <+: x :: cs := ⟨cs, rfl⟩
  unfold first
  split
  · exact single
  · split
    · rename_i equals
      cases cs with
      | nil => simp at equals
      | cons y cs =>
        obtain rfl : y = '=' := by simpa using equals
        exact ⟨cs, rfl⟩
    · exact single
  · split
    · exact single
    split
    · exact string_lexeme_isPrefix _
    split
    · exact number_lexeme_isPrefix _
    split
    · exact word_lexeme_isPrefix _
    · exact single

theorem first_lexeme_ne_nil (x : Char) (cs : List Char) : (first x cs).lexeme ≠ [] := by
  unfold first
  split
  · simp [plain]
  · split <;> simp [plain]
  · split
    · simp [plain]
    split
    · simp only [string]
      split <;> simp
    split
    · rename_i h
      simp only [number]
      split <;> simp [h]
    split
    · rename_i h
      simp [word, plain, isWordPart, h]
    · simp

end Reading
end ScriptFront
