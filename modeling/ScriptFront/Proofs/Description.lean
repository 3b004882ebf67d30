import Mathlib.Data.Bool.AllAny
import ScriptFront.Proofs.CompactForm
import ScriptFront.Proofs.Listing
import ScriptFront.Proofs.QuotedText

/-!
# Descriptions

A description tells every field of a token. The name of a type holds no comma. The lexeme is in
quotes, and is found again whatever it holds; so is a literal that is a text. All other literals are
written without commas and quotes: the absent one by a word, integers with a sign and digits alone,
and doubles with a point or a letter.
-/
namespace ScriptFront

namespace Decimal

theorem mem_integer {n : Int} {x : Char} (mem : x ∈ (integer n).toList) : Digit x ∨ x = '-' := by
  rw [integer, String.toList_ofList] at mem
  split at mem
  · rcases List.mem_cons.1 mem with sign | mem
    · exact .inr sign
    · exact .inl (digit_digits _ x mem)
  · exact .inl (digit_digits _ x mem)

theorem integer_injective : Function.Injective integer := by
  intro m n same
  have noSign (k : Nat) : '-' ∉ digits k := fun mem =>
    absurd (digit_digits k _ mem) (by decide)
  have chars := String.ofList_injective same
  have values (k l : Nat) (same : digits k = digits l) : k = l := by
    rw [← ofDigits_digits k, same, ofDigits_digits]
  split_ifs at chars with negative negative'
  · have := values _ _ (List.cons.inj chars).2
    omega
  · exact absurd (chars ▸ List.mem_cons_self) (noSign _)
  · exact absurd (chars ▸ List.mem_cons_self) (noSign _)
  · have := values _ _ chars
    omega

end Decimal

/-- A character that neither ends a field nor begins a quotation. -/
def Bare (x : Char) : Prop := x ≠ ',' ∧ x ≠ '\'' ∧ x ≠ '"'

instance : DecidablePred Bare := fun _ => inferInstanceAs (Decidable (_ ∧ _))

theorem Digit.bare {x : Char} (digit : Digit x) : Bare x := by
  refine ⟨?_, ?_, ?_⟩ <;>
  · rintro rfl
    exact absurd digit (by decide)

namespace Binary64

theorem bare_compact (x : Binary64) : ∀ c ∈ x.compact.toList, Bare c := by
  cases x with
  | nan => exact List.all_iff_forall_prop.1 (by decide)
  | infinity negative => cases negative <;> exact List.all_iff_forall_prop.1 (by decide)
  | finite negative rank =>
    have unsigned : ∀ c ∈ (compact (finite false rank)).toList, Bare c := by
      intro c mem
      rw [toList_compact] at mem
      rcases Decimal.mem_written mem with digit | other
      · exact digit.bare
      · have all : ∀ c ∈ ['.', 'e', '+', '-'], Bare c := List.all_iff_forall_prop.1 (by decide)
        exact all c other
    cases negative with
    | false => exact unsigned
    | true =>
      rw [signedForm_compact.finite_sign]
      exact List.forall_mem_cons.2 ⟨by decide, unsigned⟩

/-- No double is written with a sign and digits alone. -/
theorem exists_mem_compact (x : Binary64) : ∃ c ∈ x.compact.toList, ¬(Digit c ∨ c = '-') := by
  cases x with
  | nan => exact List.any_iff_exists_prop.1 (by decide)
  | infinity negative => cases negative <;> exact List.any_iff_exists_prop.1 (by decide)
  | finite negative rank =>
    obtain ⟨c, mem, other⟩ := (shortest rank).exists_mem_written
    refine ⟨c, ?_, by rcases other with rfl | rfl <;> decide⟩
    rw [← toList_compact] at mem
    cases negative with
    | false => exact mem
    | true =>
      rw [signedForm_compact.finite_sign]
      exact .tail _ mem

end Binary64

namespace Literal

variable {printable : Char → Bool} {a b : Literal}

theorem bare_describeWith (plain : ∀ s, a ≠ text s) :
    ∀ x ∈ (a.describeWith printable).toList, Bare x := by
  cases a with
  | null =>
    change ∀ x ∈ "None".toList, Bare x
    exact List.all_iff_forall_prop.1 (by decide)
  | text s => exact absurd rfl (plain s)
  | int n =>
    intro x mem
    rcases Decimal.mem_integer mem with digit | rfl
    · exact digit.bare
    · decide
  | number x => exact x.bare_compact

theorem describe_int_ne (n : Int) :
    (int n).describeWith printable ≠ null.describeWith printable := by
  intro same
  have mem : 'N' ∈ ((int n).describeWith printable).toList := by
    rw [same]
    exact (by decide : 'N' ∈ "None".toList)
  rcases Decimal.mem_integer mem with digit | sign
  · exact absurd digit (by decide)
  · cases sign

theorem describe_number_ne (x : Binary64) :
    (number x).describeWith printable ≠ null.describeWith printable := by
  intro same
  have word : "None".toList = ['N', 'o', 'n', 'e'] := by decide
  have chars : x.compact.toList = "None".toList := congrArg String.toList same
  rw [word] at chars
  exact Binary64.signedForm_compact.ne_cons _ (by decide) x chars

theorem describe_number_ne_int (x : Binary64) (n : Int) :
    (number x).describeWith printable ≠ (int n).describeWith printable := by
  intro same
  obtain ⟨c, mem, other⟩ := x.exists_mem_compact
  have mem' : c ∈ ((int n).describeWith printable).toList := same ▸ mem
  exact other (Decimal.mem_integer mem')

/-- A literal that is no text is told by its description. -/
theorem eq_of_describeWith_eq (plain : ∀ s, a ≠ text s) (plain' : ∀ s, b ≠ text s)
    (same : a.describeWith printable = b.describeWith printable) : a = b := by
  cases a with
  | null =>
    cases b with
    | null => rfl
    | text s => exact absurd rfl (plain' s)
    | int n => exact absurd same.symm (describe_int_ne n)
    | number x => exact absurd same.symm (describe_number_ne x)
  | text s => exact absurd rfl (plain s)
  | int m =>
    cases b with
    | null => exact absurd same (describe_int_ne m)
    | text s => exact absurd rfl (plain' s)
    | int n => rw [Decimal.integer_injective same]
    | number x => exact absurd same.symm (describe_number_ne_int x m)
  | number x =>
    cases b with
    | null => exact absurd same (describe_number_ne x)
    | text s => exact absurd rfl (plain' s)
    | int n => exact absurd same (describe_number_ne_int x n)
    | number y => rw [Binary64.signedForm_compact.injective same]

/-- A text in quotes and any other literal with a comma behind it begin differently. -/
theorem text_append_ne (plain : ∀ s, a ≠ text s) (s : String) (rest rest' : List Char) :
    ((text s).describeWith printable).toList ++ rest ≠
      (a.describeWith printable).toList ++ ',' :: rest' := by
  have isQuote := Text.Quoted.isQuote_quoteFor s.toList
  have bare : ∀ x ∈ (a.describeWith printable).toList, Bare x := bare_describeWith plain
  have opens : ((text s).describeWith printable).toList ++ rest =
      Text.Quoted.quoteFor s.toList :: (s.toList.flatMap
        (Text.Quoted.escape printable (Text.Quoted.quoteFor s.toList)) ++
          [Text.Quoted.quoteFor s.toList] ++ rest) := by
    simp [describeWith, Text.Quoted.encodeWith, Text.Quoted.charsWith]
  rw [opens]
  generalize Text.Quoted.quoteFor s.toList = quote at *
  intro same
  cases chars : (a.describeWith printable).toList with
  | nil =>
    rw [chars] at same
    rw [(List.cons.inj same).1] at isQuote
    rcases isQuote with comma | comma <;> cases comma
  | cons x more =>
    rw [chars] at same bare
    rw [(List.cons.inj same).1] at isQuote
    obtain ⟨-, noSingle, noDouble⟩ := bare x (.head _)
    exact isQuote.elim noSingle noDouble

/-- With a comma behind it every literal is told by its description. -/
theorem describeWith_append_inj {rest rest' : List Char}
    (same : (a.describeWith printable).toList ++ ',' :: rest =
      (b.describeWith printable).toList ++ ',' :: rest') : a = b ∧ rest = rest' := by
  by_cases quoted : ∃ s, a = text s
  · obtain ⟨s, rfl⟩ := quoted
    by_cases quoted' : ∃ t, b = text t
    · obtain ⟨t, rfl⟩ := quoted'
      simp only [describeWith, Text.Quoted.encodeWith, String.toList_ofList] at same
      obtain ⟨chars, behind⟩ := Text.Quoted.selfDelimiting_charsWith printable same
      exact ⟨congrArg text (String.toList_inj.1 chars), (List.cons.inj behind).2⟩
    · exact absurd same (text_append_ne (not_exists.1 quoted') s _ _)
  · by_cases quoted' : ∃ t, b = text t
    · obtain ⟨t, rfl⟩ := quoted'
      exact absurd same.symm (text_append_ne (not_exists.1 quoted) t _ _)
    · have plain := not_exists.1 quoted
      have plain' := not_exists.1 quoted'
      obtain ⟨chars, behind⟩ := append_cons_inj
        (fun mem => (bare_describeWith plain _ mem).1 rfl)
        (fun mem => (bare_describeWith plain' _ mem).1 rfl) same
      exact ⟨eq_of_describeWith_eq plain plain' (String.toList_inj.1 chars), behind⟩

end Literal

namespace Token

theorem toList_describeWith (printable : Char → Bool) (t : Token) :
    (t.describeWith printable).toList = "Token(".toList ++ (t.type.name.toList ++ ',' ::
      (' ' :: (Text.Quoted.charsWith printable t.lexeme.toList ++ ',' ::
        (' ' :: ((t.literal.describeWith printable).toList ++ ',' ::
          (" line=".toList ++ ((Decimal.integer t.line).toList ++ [')']))))))) := by
  simp [describeWith, Text.Quoted.encodeWith]

/-- Whichever characters print, tokens are described alike just where they are the same in all four
fields: the type, the lexeme, the literal with its kind, and the line. Doubles are the same bit by
bit, so the two zeros are told apart. -/
theorem describeWith_eq_iff (printable : Char → Bool) (a b : Token) :
    a.describeWith printable = b.describeWith printable ↔ a = b := by
  constructor
  · intro same
    have comma : isWordPart ',' = false := by decide
    rw [← String.toList_inj, toList_describeWith, toList_describeWith] at same
    obtain ⟨names, behindName⟩ := append_cons_inj (a.type.not_mem_name comma)
      (b.type.not_mem_name comma) (List.append_cancel_left same)
    obtain ⟨lexemes, behindLexeme⟩ :=
      Text.Quoted.selfDelimiting_charsWith printable (List.cons.inj behindName).2
    obtain ⟨-, fields⟩ := List.cons.inj behindLexeme
    obtain ⟨literals, behindLiteral⟩ := Literal.describeWith_append_inj (List.cons.inj fields).2
    have lines := List.append_cancel_right (List.append_cancel_left behindLiteral)
    obtain ⟨type, lexeme, literal, line⟩ := a
    obtain ⟨type', lexeme', literal', line'⟩ := b
    rw [Token.mk.injEq]
    exact ⟨TokenType.name_injective (String.toList_inj.1 names), String.toList_inj.1 lexemes,
      literals, Decimal.integer_injective (String.toList_inj.1 lines)⟩
  · rintro rfl
    rfl

end Token
end ScriptFront
