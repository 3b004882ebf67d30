import Mathlib.Tactic.Ring
import Mathlib.Tactic.SplitIfs
import ScriptFront.Text.Quoted

/-!
# Reading quoted text

A text in quotes is found again with anything written behind it, whatever the text holds and
whichever characters print. A character by itself stands for no other one; a backslash says that
more is to come, and the letter behind it how much. No character is written with the quote in front,
so the closing quote is known when it comes.
-/
namespace ScriptFront.Text

/-- What is written in such a form is found again with anything behind it. -/
def SelfDelimiting {α : Type} (form : α → List Char) : Prop :=
  ∀ {a b : α} {rest rest' : List Char}, form a ++ rest = form b ++ rest' → a = b ∧ rest = rest'

namespace Quoted

def hexValue (x : Char) : Nat := if x.toNat < 58 then x.toNat - 48 else x.toNat - 87

def ofHex (ds : List Char) : Nat := ds.foldl (fun n x => 16 * n + hexValue x) 0

theorem hexValue_hexDigit {d : Nat} (h : d < 16) : hexValue (hexDigit d) = d := by
  have : ∀ d < 16, hexValue (hexDigit d) = d := by decide
  exact this d h

@[simp] theorem length_hex (width n : Nat) : (hex width n).length = width := by
  induction width with
  | zero => rfl
  | succ width ih => rw [hex, List.length_cons, ih]

/-- Digits are read one by one, with what was read before as their leading part. -/
theorem foldl_hex (width n before : Nat) :
    (hex width n).foldl (fun n x => 16 * n + hexValue x) before =
      before * 16 ^ width + n % 16 ^ width := by
  induction width generalizing before with
  | zero => simp [hex, Nat.mod_one]
  | succ width ih =>
    have digit := hexValue_hexDigit (Nat.mod_lt (n / Nat.pow 16 width) (by decide : 0 < 16))
    have split : n % 16 ^ (width + 1) = n % 16 ^ width + 16 ^ width * (n / 16 ^ width % 16) :=
      Nat.mod_mul
    rw [Nat.pow_eq] at digit
    rw [hex, List.foldl_cons, ih, Nat.pow_eq, digit, split]
    ring

theorem ofHex_hex {width n : Nat} (h : n < 16 ^ width) : ofHex (hex width n) = n := by
  rw [ofHex, foldl_hex, Nat.zero_mul, Nat.zero_add, Nat.mod_eq_of_lt h]

/-- Reads one character, which is written by itself or behind a backslash. -/
def unescape : List Char → Option (Char × List Char)
  | '\\' :: 'n' :: cs => some ('\n', cs)
  | '\\' :: 'r' :: cs => some ('\r', cs)
  | '\\' :: 't' :: cs => some ('\t', cs)
  | '\\' :: 'x' :: cs => some (Char.ofNat (ofHex (cs.take 2)), cs.drop 2)
  | '\\' :: 'u' :: cs => some (Char.ofNat (ofHex (cs.take 4)), cs.drop 4)
  | '\\' :: 'U' :: cs => some (Char.ofNat (ofHex (cs.take 8)), cs.drop 8)
  | '\\' :: x :: cs => some (x, cs)
  | x :: cs => some (x, cs)
  | [] => none

/-- The two quotes. -/
def IsQuote (x : Char) : Prop := x = '\'' ∨ x = '"'

theorem isQuote_quoteFor (cs : List Char) : IsQuote (quoteFor cs) := by
  unfold quoteFor
  split
  · exact .inr rfl
  · exact .inl rfl

variable {printable : Char → Bool} {quote : Char}

theorem hex_append {width : Nat} {x : Char} (small : x.toNat < 16 ^ width) (rest : List Char) :
    (Char.ofNat (ofHex ((hex width x.toNat ++ rest).take width)),
      (hex width x.toNat ++ rest).drop width) = (x, rest) := by
  have length : (hex width x.toNat).length = width := length_hex _ _
  rw [List.take_left' length, List.drop_left' length, ofHex_hex small, Char.ofNat_toNat]

/-- Whatever is written for a character is read as that character. -/
theorem unescape_escape (isQuote : IsQuote quote) (x : Char) (rest : List Char) :
    unescape (escape printable quote x ++ rest) = some (x, rest) := by
  have bound : x.toNat < 16 ^ 8 := x.val.toNat_lt
  unfold escape
  split_ifs with special feed carriage tab prints small medium
  · rcases isQuote with rfl | rfl <;> rcases special with rfl | rfl <;> rfl
  · rw [feed]
    rfl
  · rw [carriage]
    rfl
  · rw [tab]
    rfl
  · have noBackslash : x ≠ '\\' := fun same => special (.inr same)
    simp [unescape, noBackslash]
  · exact congrArg some (hex_append small rest)
  · exact congrArg some (hex_append medium rest)
  · exact congrArg some (hex_append bound rest)

theorem selfDelimiting_escape (isQuote : IsQuote quote) :
    SelfDelimiting (escape printable quote) := by
  intro x y rest rest' same
  have read : some (x, rest) = some (y, rest') := by
    rw [← unescape_escape isQuote x rest, same, unescape_escape isQuote]
  cases read
  exact ⟨rfl, rfl⟩

/-- No character is written with the quote in front. -/
theorem exists_escape (isQuote : IsQuote quote) (printable : Char → Bool) (x : Char) :
    ∃ y more, escape printable quote x = y :: more ∧ y ≠ quote := by
  have backslash : '\\' ≠ quote := by
    rcases isQuote with rfl | rfl <;> decide
  unfold escape
  split_ifs with special feed carriage tab prints small medium
  · exact ⟨_, _, rfl, backslash⟩
  · exact ⟨_, _, rfl, backslash⟩
  · exact ⟨_, _, rfl, backslash⟩
  · exact ⟨_, _, rfl, backslash⟩
  · exact ⟨_, _, rfl, fun same => special (.inl same)⟩
  · exact ⟨_, _, rfl, backslash⟩
  · exact ⟨_, _, rfl, backslash⟩
  · exact ⟨_, _, rfl, backslash⟩

/-- The characters between the quotes are found again, up to the closing quote. -/
theorem flatMap_escape_inj (isQuote : IsQuote quote) {cs cs' rest rest' : List Char}
    (same : cs.flatMap (escape printable quote) ++ quote :: rest =
      cs'.flatMap (escape printable quote) ++ quote :: rest') : cs = cs' ∧ rest = rest' := by
  induction cs generalizing cs' with
  | nil =>
    cases cs' with
    | nil => exact ⟨rfl, (List.cons.inj same).2⟩
    | cons x cs' =>
      obtain ⟨y, more, written, other⟩ := exists_escape isQuote printable x
      rw [List.flatMap_cons, written] at same
      exact absurd (List.cons.inj same).1.symm other
  | cons x cs ih =>
    cases cs' with
    | nil =>
      obtain ⟨y, more, written, other⟩ := exists_escape isQuote printable x
      rw [List.flatMap_cons, written] at same
      exact absurd (List.cons.inj same).1 other
    | cons x' cs' =>
      rw [List.flatMap_cons, List.flatMap_cons, List.append_assoc, List.append_assoc] at same
      obtain ⟨rfl, behind⟩ := selfDelimiting_escape isQuote same
      obtain ⟨rfl, rfl⟩ := ih behind
      exact ⟨rfl, rfl⟩

theorem selfDelimiting_charsWith (printable : Char → Bool) :
    SelfDelimiting (charsWith printable) := by
  intro cs cs' rest rest' same
  simp only [charsWith, List.cons_append, List.append_assoc, List.nil_append] at same
  obtain ⟨quotes, inside⟩ := List.cons.inj same
  rw [← quotes] at inside
  exact flatMap_escape_inj (isQuote_quoteFor cs) inside

end Quoted
end ScriptFront.Text
