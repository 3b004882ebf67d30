import Mathlib.Data.List.Forall2
import ScriptFront.Proofs.Layout
import ScriptFront.Proofs.NumberText

/-!
# Listings

A listing shows every token in a line of its own: the type, the lexeme and the literal, with spaces
between them. Of the tokens of a scan only strings hold spaces, and those are in quotes that they do
not hold themselves; and none goes over the end of a line. So the listing of a scan tells all its
tokens, except for their lines.
-/
namespace ScriptFront

theorem TokenType.isWordPart_name (type : TokenType) :
    ∀ x ∈ type.name.toList, isWordPart x = true := by
  have all : ∀ type ∈ TokenType.all, type.name.toList.all isWordPart = true := by decide +kernel
  exact List.all_eq_true.1 (all type type.mem_all)

theorem TokenType.not_mem_name (type : TokenType) {x : Char} (other : isWordPart x = false) :
    x ∉ type.name.toList := by
  intro mem
  rw [type.isWordPart_name x mem] at other
  cases other

theorem Lexeme.space_not_mem {l : List Char} {type : TokenType} {literal : Literal}
    (h : Lexeme l type literal) (noString : type ≠ .string) : ' ' ∉ l := by
  have notPart : isWordPart ' ' = false := by decide
  have notDigit : ¬Digit ' ' := by decide
  cases h with
  | fixed listed =>
    have : ∀ p ∈ fixedLexemes, ' ' ∉ p.1 := by decide
    exact this _ listed
  | string => exact absurd rfl noString
  | whole digits => exact fun mem => notDigit (digits.digit _ mem)
  | fraction digits places =>
    intro mem
    rcases List.mem_append.1 mem with mem | mem
    · exact notDigit (digits.digit _ mem)
    · exact notDigit (places.digit _ (by simpa using mem))
  | keyword word | identifier word =>
    intro mem
    simpa [notPart] using word.all _ mem

theorem Lexeme.exists_content {l : List Char} {literal : Literal} (h : Lexeme l .string literal) :
    ∃ content, l = '"' :: (content ++ ['"']) ∧ literal = .text (String.ofList content) ∧
      ∀ x ∈ content, x ≠ '"' ∧ x ≠ '\n' := by
  generalize type : TokenType.string = type' at h
  cases h with
  | @string content inside => exact ⟨content, rfl, rfl, inside⟩
  | fixed listed =>
    have noString : ∀ p ∈ fixedLexemes, p.2 ≠ .string := by decide
    exact absurd type.symm (noString _ listed)
  | _ => cases type

theorem Binary64.newline_not_mem_canonical (x : Binary64) : '\n' ∉ x.canonical.toList := by
  cases x with
  | nan => decide
  | infinity negative => cases negative <;> decide
  | finite negative rank =>
    have unsigned := (lexeme_canonical rank).newline_not_mem
    cases negative with
    | false => exact unsigned
    | true =>
      rw [canonical, signed, if_pos rfl, String.toList_ofList, List.mem_cons]
      rw [canonical, signed, if_neg Bool.false_ne_true, String.toList_ofList] at unsigned
      exact not_or.2 ⟨by decide, unsigned⟩

namespace Token

/-- A token as scans give them: of some lexeme, or at the end of the text. -/
def Spelled (t : Token) : Prop :=
  Lexeme t.lexeme.toList t.type t.literal ∨ ∃ line, t = endOn line

theorem spelled_of_mem_scan {source : Source} {filename : String} {t : Token}
    (mem : t ∈ (scan source filename).tokens) : t.Spelled := by
  rw [scan_eq] at mem
  rcases List.mem_append.1 mem with found | last
  · exact .inl (lexeme_of_mem_items found)
  · exact .inr ⟨_, List.mem_singleton.1 last⟩

namespace Spelled

variable {t u : Token}

/-- A token is a string in quotes, or has no space in its lexeme. -/
theorem cases (h : t.Spelled) :
    (t.type = .string ∧ ∃ content, t.lexeme.toList = '"' :: (content ++ ['"']) ∧ '"' ∉ content) ∨
      (t.type ≠ .string ∧ ' ' ∉ t.lexeme.toList) := by
  rcases h with matched | ⟨line, rfl⟩
  · by_cases string : t.type = .string
    · rw [string] at matched
      obtain ⟨content, text, -, inside⟩ := matched.exists_content
      exact .inl ⟨string, content, text, fun mem => (inside _ mem).1 rfl⟩
    · exact .inr ⟨string, matched.space_not_mem string⟩
  · exact .inr ⟨by simp [endOn], by simp [endOn]⟩

theorem lineless_eq (h : t.Spelled) (h' : u.Spelled)
    (same : t.lexeme = u.lexeme) : t.lineless = u.lineless := by
  rw [lineless_eq_iff]
  rcases h with matched | ⟨line, rfl⟩ <;> rcases h' with matched' | ⟨line', rfl⟩
  · rw [← same] at matched'
    obtain ⟨type, literal⟩ := matched.unique matched'
    exact ⟨type, same, literal⟩
  · exact absurd (congrArg String.toList same) matched.ne_nil
  · exact absurd (congrArg String.toList same.symm) matched'.ne_nil
  · exact ⟨rfl, rfl, rfl⟩

theorem exists_literalText (h : t.Spelled) :
    ∃ text, t.literalText = .ok text ∧ '\n' ∉ text.toList := by
  rcases h with matched | ⟨line, rfl⟩
  · rcases matched.literal_cases with ⟨type, x, held⟩ | ⟨type, -⟩ | ⟨plain, -⟩
    · refine ⟨x.canonical, ?_, x.newline_not_mem_canonical⟩
      rw [literalText, type, held]
      rfl
    · rw [type] at matched
      obtain ⟨content, -, held, inside⟩ := matched.exists_content
      refine ⟨String.ofList content, ?_, ?_⟩
      · rw [literalText, type, held]
        rfl
      · rw [String.toList_ofList]
        exact fun mem => (inside _ mem).2 rfl
    · refine ⟨"null", ?_, by decide⟩
      unfold literalText
      split
      · rename_i type
        rw [type] at plain
        cases plain
      · rename_i type
        rw [type] at plain
        cases plain
      · rfl
  · exact ⟨"null", rfl, by decide⟩

theorem newline_not_mem_lexeme (h : t.Spelled) : '\n' ∉ t.lexeme.toList := by
  rcases h with matched | ⟨line, rfl⟩
  · exact matched.newline_not_mem
  · simp [endOn]

/-- A token is listed in one line, with its fields one after another. -/
theorem exists_listed (h : t.Spelled) : ∃ row text, t.listed = .ok row ∧
    row.toList = t.type.name.toList ++ ' ' :: (t.lexeme.toList ++ ' ' :: text) ∧
      '\n' ∉ row.toList := by
  obtain ⟨text, shown, oneLine⟩ := h.exists_literalText
  have fields : (t.type.name ++ " " ++ t.lexeme ++ " " ++ text).toList =
      t.type.name.toList ++ ' ' :: (t.lexeme.toList ++ ' ' :: text.toList) := by simp
  refine ⟨_, text.toList, ?_, fields, ?_⟩
  · rw [listed, shown]
    rfl
  · have name := t.type.not_mem_name (x := '\n') (by decide)
    have lexeme := h.newline_not_mem_lexeme
    rw [fields]
    simp [name, lexeme, oneLine]

/-- The line of a token tells its type, its lexeme and its literal. -/
theorem lineless_eq_of_listed (h : t.Spelled) (h' : u.Spelled) (same : t.listed = u.listed) :
    t.lineless = u.lineless := by
  obtain ⟨row, text, listed, fields, -⟩ := h.exists_listed
  obtain ⟨row', text', listed', fields', -⟩ := h'.exists_listed
  rw [listed, listed', Except.ok.injEq] at same
  rw [← same, fields] at fields'
  have space : isWordPart ' ' = false := by decide
  obtain ⟨names, behind⟩ :=
    append_cons_inj (t.type.not_mem_name space) (u.type.not_mem_name space) fields'
  have types : t.type = u.type := TokenType.name_injective (String.toList_inj.1 names)
  refine h.lineless_eq h' (String.toList_inj.1 ?_)
  rcases h.cases with ⟨string, content, quoted, noQuote⟩ | ⟨noString, noSpace⟩
  · rcases h'.cases with ⟨-, content', quoted', noQuote'⟩ | ⟨noString, -⟩
    · rw [quoted, quoted'] at behind ⊢
      simp only [List.cons_append, List.append_assoc, List.cons.injEq, true_and,
        List.nil_append] at behind
      rw [(append_cons_inj noQuote noQuote' behind).1]
    · exact absurd (types ▸ string) noString
  · rcases h'.cases with ⟨string, -⟩ | ⟨-, noSpace'⟩
    · exact absurd (types.trans string) noString
    · exact (append_cons_inj noSpace noSpace' behind).1

end Spelled
end Token

/-- Where every element has a result, all together have the list of those. -/
theorem mapM_eq_ok {α β ε : Type} {f : α → Except ε β} {xs : List α} {ys : List β}
    (results : xs.map f = ys.map .ok) : xs.mapM f = .ok ys := by
  induction xs generalizing ys with
  | nil =>
    obtain rfl : ys = [] := by simpa using results.symm
    rfl
  | cons x xs ih =>
    cases ys with
    | nil => cases results
    | cons y ys =>
      obtain ⟨first, more⟩ := List.cons.inj results
      rw [List.mapM_cons, first, ih more]
      rfl

/-- What a function tells of single elements, its results tell of a list. -/
theorem map_eq_map_of {α β γ : Type} {f : α → β} {g : α → γ} {xs ys : List α}
    (tells : ∀ x ∈ xs, ∀ y ∈ ys, f x = f y → g x = g y) (same : xs.map f = ys.map f) :
    xs.map g = ys.map g := by
  induction xs generalizing ys with
  | nil =>
    obtain rfl : ys = [] := by simpa using same.symm
    rfl
  | cons x xs ih =>
    cases ys with
    | nil => cases same
    | cons y ys =>
      obtain ⟨first, more⟩ := List.cons.inj same
      rw [List.map_cons, List.map_cons, tells x (.head _) y (.head _) first,
        ih (fun a mem b mem' => tells a (.tail _ mem) b (.tail _ mem')) more]

/-- Texts without line feeds are found again in the text of all of them below one another. -/
theorem lines_injective {lines lines' : List String} (some : lines ≠ []) (some' : lines' ≠ [])
    (single : ∀ line ∈ lines, '\n' ∉ line.toList) (single' : ∀ line ∈ lines', '\n' ∉ line.toList)
    (same : "\n".intercalate lines = "\n".intercalate lines') : lines = lines' := by
  have split {lines : List String} (some : lines ≠ [])
      (single : ∀ line ∈ lines, '\n' ∉ line.toList) :
      ("\n".intercalate lines).toList.splitOn '\n' = lines.map String.toList := by
    rw [String.toList_intercalate]
    exact List.splitOn_intercalate '\n' (by simpa using single) (by simpa using some)
  have chars := split some single
  rw [same, split some' single'] at chars
  exact (List.map_injective_iff.2 (fun _ _ => String.toList_inj.1) chars).symm

/-- The lines of tokens, one below the other. -/
def listing (ts : List Token) : Except NumberError String :=
  (ts.mapM Token.listed).map "\n".intercalate

theorem exists_lines {ts : List Token} (spelled : ∀ t ∈ ts, t.Spelled) :
    ∃ lines : List String, ts.map Token.listed = lines.map .ok ∧
      ∀ line ∈ lines, '\n' ∉ line.toList := by
  induction ts with
  | nil => exact ⟨[], rfl, by simp⟩
  | cons t ts ih =>
    obtain ⟨first, more⟩ := List.forall_mem_cons.1 spelled
    obtain ⟨row, text, listed, -, oneLine⟩ := first.exists_listed
    obtain ⟨lines, rows, single⟩ := ih more
    exact ⟨row :: lines, by rw [List.map_cons, List.map_cons, listed, rows],
      List.forall_mem_cons.2 ⟨oneLine, single⟩⟩

theorem listing_eq {ts : List Token} {lines : List String}
    (rows : ts.map Token.listed = lines.map .ok) :
    listing ts = .ok ("\n".intercalate lines) := by
  rw [listing, mapM_eq_ok rows]
  rfl

/-- The listings of tokens that are not none tell all but their lines. -/
theorem listing_eq_iff {ts us : List Token} (spelled : ∀ t ∈ ts, t.Spelled)
    (spelled' : ∀ u ∈ us, u.Spelled) (some : ts ≠ []) (some' : us ≠ []) :
    listing ts = listing us ↔ ts.map Token.lineless = us.map Token.lineless := by
  obtain ⟨lines, rows, single⟩ := exists_lines spelled
  obtain ⟨lines', rows', single'⟩ := exists_lines spelled'
  rw [listing_eq rows, listing_eq rows', Except.ok.injEq]
  have nonempty : lines ≠ [] := by
    rintro rfl
    exact some (List.map_eq_nil_iff.1 rows)
  have nonempty' : lines' ≠ [] := by
    rintro rfl
    exact some' (List.map_eq_nil_iff.1 rows')
  constructor
  · intro same
    rw [lines_injective nonempty nonempty' single single' same, ← rows'] at rows
    exact map_eq_map_of (fun t mem u mem' =>
      (spelled t mem).lineless_eq_of_listed (spelled' u mem')) rows
  · intro same
    have without (t : Token) : t.listed = t.lineless.listed := rfl
    have again : ts.map Token.listed = us.map Token.listed := by
      refine map_eq_map_of (fun t _ u _ agree => ?_) same
      rw [without t, without u, agree]
    rw [rows, rows'] at again
    rw [List.map_injective_iff.2 (fun _ _ => Except.ok.inj) again]

/-- A listing of a scan tells its tokens. No line of it goes over the end of a line, and two scans
have the same listing just where they have as many tokens, with the same types, lexemes and literals
in the same places. -/
theorem scan_listing (source source' : Source) (filename filename' : String) :
    (∀ t ∈ (scan source filename).tokens, ∃ row, t.listed = .ok row ∧ '\n' ∉ row.toList) ∧
    (∃ text, listing (scan source filename).tokens = .ok text) ∧
    (listing (scan source filename).tokens = listing (scan source' filename').tokens ↔
      List.Forall₂ (fun t u => t.type = u.type ∧ t.lexeme = u.lexeme ∧ t.literal = u.literal)
        (scan source filename).tokens (scan source' filename').tokens) := by
  have spelled : ∀ {source filename}, ∀ t ∈ (scan source filename).tokens, t.Spelled :=
    fun _ => Token.spelled_of_mem_scan
  have some : ∀ {source filename}, (scan source filename).tokens ≠ [] := by
    intro source filename
    rw [scan_eq]
    simp
  refine ⟨?_, ?_, ?_⟩
  · intro t mem
    obtain ⟨row, -, listed, -, oneLine⟩ := (spelled t mem).exists_listed
    exact ⟨row, listed, oneLine⟩
  · have here : ∀ t ∈ (scan source filename).tokens, t.Spelled := spelled
    obtain ⟨lines, rows, -⟩ := exists_lines here
    exact ⟨_, listing_eq rows⟩
  · rw [listing_eq_iff spelled spelled some some, ← List.forall₂_eq_eq_eq,
      List.forall₂_map_left_iff, List.forall₂_map_right_iff]
    simp only [Token.lineless_eq_iff]

end ScriptFront
