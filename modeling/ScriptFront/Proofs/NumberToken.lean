import Mathlib.Tactic.Positivity
import ScriptFront.Proofs.NearestDouble
import ScriptFront.Proofs.Spans
import ScriptFront.Proofs.Written

/-!
# Number tokens

A number token holds the number that is written, rounded to nearest: every numeral is scanned as one
such token, and no other text is scanned as a number.
-/
namespace ScriptFront

namespace Binary64

variable {q : ℚ}

/-- `NumberLexeme l q`: the text `l` is digits, or digits, a point and digits, and `q` is the number
that it denotes. -/
inductive NumberLexeme : List Char → ℚ → Prop
  | whole {ds : List Char} (digits : Numeral ds) : NumberLexeme ds (Decimal.ofDigits ds)
  | fraction {ds fs : List Char} (digits : Numeral ds) (places : Numeral fs) :
      NumberLexeme (ds ++ '.' :: fs) (Decimal.ofDigits ds + Decimal.ofDigits fs / 10 ^ fs.length)

/-- The double of a numeral is the number that is written, rounded to nearest. -/
theorem unsignedRounded_ofNumeral (ds fs : List Char) :
    UnsignedRounded (Decimal.ofDigits ds + Decimal.ofDigits fs / 10 ^ fs.length)
      (ofNumeral ds fs) := by
  have pos : 0 < Nat.pow 10 fs.length := Nat.pow_pos (by decide)
  have quotient : (Decimal.ofDigits ds + Decimal.ofDigits fs / 10 ^ fs.length : ℚ) =
      Decimal.ofDigits (ds ++ fs) / Nat.pow 10 fs.length := by
    rw [Decimal.ofDigits_append_list, Nat.pow_eq]
    push_cast
    field_simp
  rw [quotient]
  exact (covers_nearestRank pos _).unsignedRounded (by positivity)

-- Half way between 2⁵³ and the double behind it, which is odd.
example : ofNumeral "9007199254740993".toList [] =
    finite false ⟨1076 * fractionCount, by decide⟩ := by decide +kernel

/-- A numeral is a lexeme, and its literal is the number rounded to nearest. -/
theorem NumberLexeme.exists_lexeme {l : List Char} (h : NumberLexeme l q) :
    ∃ x, Lexeme l .number (.number x) ∧ UnsignedRounded q x := by
  cases h with
  | whole digits =>
    have rounded := unsignedRounded_ofNumeral l []
    rw [show Decimal.ofDigits [] = 0 from rfl, Nat.cast_zero, zero_div, add_zero] at rounded
    exact ⟨_, .whole digits, rounded⟩
  | @fraction ds fs digits places =>
    exact ⟨_, .fraction digits places, unsignedRounded_ofNumeral ds fs⟩

theorem exists_numberLexeme {l : List Char} {literal : Literal} (h : Lexeme l .number literal) :
    ∃ q, NumberLexeme l q := by
  generalize type : TokenType.number = type' at h
  cases h with
  | fixed listed =>
    have apart : ∀ p ∈ fixedLexemes, p.2 ≠ .number := by decide
    exact absurd type.symm (apart _ listed)
  | whole digits => exact ⟨_, .whole digits⟩
  | fraction digits places => exact ⟨_, .fraction digits places⟩
  | string | keyword | identifier => cases type

end Binary64

open Binary64 in
/-- The literal of a number token is the number that its lexeme denotes, rounded to nearest. Every
numeral is scanned as one such token, of whatever length, and every number token of a script is one
of a numeral. -/
theorem scan_number_rounded (filename : String) :
    (∀ l q, NumberLexeme l q → ∃ x, UnsignedRounded q x ∧
      scan (.text (String.ofList l)) filename =
        ⟨[⟨.number, String.ofList l, .number x, 1⟩, .endOn 1], []⟩) ∧
    ∀ source, ∀ t ∈ (scan source filename).tokens, t.type = .number →
      ∃ q x, NumberLexeme t.lexeme.toList q ∧ t.literal = .number x ∧ UnsignedRounded q x := by
  constructor
  · intro l q numeral
    obtain ⟨x, matched, rounded⟩ := numeral.exists_lexeme
    have munch : Munch (l ++ []) _ := .of_not_goesOn matched (not_goesOn_of_apart (by simp))
    have alone := ScansTo.lexeme matched (by decide) munch
    rw [← String.toList_ofList (l := l)] at alone
    refine ⟨x, rounded, ?_⟩
    simpa using alone.scan_eq filename
  · intro source t found type
    rw [scan_eq] at found
    rcases List.mem_append.1 found with inner | last
    · have matched := lexeme_of_mem_items inner
      rw [type] at matched
      obtain ⟨q, numeral⟩ := exists_numberLexeme matched
      obtain ⟨x, matched', rounded⟩ := numeral.exists_lexeme
      exact ⟨q, x, numeral, (matched.unique matched').2, rounded⟩
    · rw [List.mem_singleton.1 last] at type
      cases type

open Binary64 in
theorem scan_number_rounded_halfway :
    NumberLexeme "9007199254740993".toList 9007199254740993 ∧
    ∃ x, UnsignedRounded 9007199254740993 x ∧
      scan (.text "9007199254740993") "" =
        ⟨[⟨.number, "9007199254740993", .number x, 1⟩, .endOn 1], []⟩ ∧
      ∃ q y, NumberLexeme "9007199254740993".toList q ∧ Literal.number x = .number y ∧
        UnsignedRounded q y := by
  have all : "9007199254740993".toList.all isDigit = true := by decide
  have digits : Numeral "9007199254740993".toList :=
    ⟨by decide, fun d mem => (isDigit_iff d).1 (List.all_eq_true.1 all d mem)⟩
  have numeral : NumberLexeme "9007199254740993".toList 9007199254740993 := by
    have whole := NumberLexeme.whole digits
    rwa [show Decimal.ofDigits "9007199254740993".toList = 9007199254740993 by decide] at whole
  obtain ⟨x, rounded, alone⟩ := (scan_number_rounded "").1 _ _ numeral
  rw [String.ofList_toList] at alone
  refine ⟨numeral, x, rounded, alone, ?_⟩
  exact (scan_number_rounded "").2 (.text "9007199254740993") ⟨.number, _, .number x, 1⟩
    (by rw [alone]; exact .head _) rfl

end ScriptFront
