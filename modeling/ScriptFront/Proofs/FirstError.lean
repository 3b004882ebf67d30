import ScriptFront.Proofs.Gap

/-!
# The first error

The tokens of a script are refused at its first error. What stands before the error is without
errors by itself, and has the tokens that were found there; and what stands behind the error has no
part in it: the same error is found first whatever follows its character, or the end of its line.
-/
namespace ScriptFront

/-- A character that no lexeme goes on with. -/
def EndsLexeme (x : Char) : Prop := isWordPart x = false ∧ isDigit x = false ∧ x ≠ '=' ∧ x ≠ '.'

/-- A reading is not changed by what stands behind a character that no lexeme goes on with. -/
theorem Reading.Stands.congr_endsLexeme {r : Reading} {same tail tail' : List Char} {x : Char}
    (h : r.Stands (same ++ x :: tail)) (apart : EndsLexeme x) : r.Stands (same ++ x :: tail') := by
  cases same with
  | nil =>
    have ends := (munch_iff_ends h.munch _).1 h.munch
    refine ⟨(munch_iff_ends h.munch _).2 ?_, ?_⟩
    · rw [List.nil_append] at ends ⊢
      unfold Ends at ends ⊢
      split at ends
      · apply not_goesOn_of_apart
        rintro _ ⟨⟩
        exact apart
      · rw [endsLine_cons] at ends ⊢
        exact ends
      · trivial
    · exact Cursor.triviaLength_congr_behind h.munch.lexeme_ne_nil h.stop id
  | cons y same =>
    rw [← List.singleton_append (l := tail), ← List.append_assoc] at h
    rw [← List.singleton_append (l := tail'), ← List.append_assoc]
    apply h.congr_behind (.inl (by simp))
    intro none
    simp at none

/-- A character that no lexeme starts with continues none either. -/
theorem NoLexeme.endsLexeme {x : Char} {rest : List Char} (h : NoLexeme (x :: rest)) :
    EndsLexeme x := by
  have none : ¬IsLexeme [x] := h [x] rest rfl
  have noDigit : isDigit x = false := by
    by_contra digit
    exact none ⟨_, _, .whole ⟨by simp, by simpa using (isDigit_iff x).1 (by simpa using digit)⟩⟩
  refine ⟨?_, noDigit, ?_, ?_⟩
  · by_contra part
    have start : isWordStart x = true := by simpa [isWordPart, noDigit] using part
    exact none (isLexeme_of_isWordStart start)
  · rintro rfl
    exact none ⟨.equal, .null, .fixed (by decide)⟩
  · rintro rfl
    exact none ⟨.dot, .null, .fixed (by decide)⟩

/-- An error is about a character that starts no lexeme, or about a string that its line ends. -/
theorem Reading.Stands.cases_error {r : Reading} {rest : List Char} {cause : ScanError.Cause}
    (h : r.Stands rest) (verdict : r.verdict = .error cause) :
    (∃ x, r = ⟨[x], .error (.unexpectedCharacter x)⟩ ∧ EndsLexeme x ∧
      ∀ rest', r.Stands rest') ∨
    ∃ content, r = ⟨'"' :: content, .error (.unterminatedString (String.ofList content))⟩ := by
  obtain ⟨munch, stop⟩ := h
  generalize same : r.lexeme ++ rest = text at munch
  cases munch with
  | token => cases verdict
  | unterminated => exact .inr ⟨_, rfl⟩
  | @unexpected x _ none noQuote =>
    refine .inl ⟨x, rfl, none.endsLexeme, fun rest' => ⟨?_, ?_⟩⟩
    · exact .unexpected (none.congr_behind noQuote rest') noQuote
    · have noSlash : x ≠ '/' := by
        rintro rfl
        exact none ['/'] _ rfl ⟨.slash, .null, .fixed (by decide)⟩
      rw [List.singleton_append, Cursor.triviaLength_cons_eq_zero] at stop ⊢
      exact ⟨stop.1, fun slashes => noSlash slashes.1⟩

namespace Scanned

theorem tokens?_eq_ok_iff {r : Scanned} {ts : List Token} :
    r.tokens? = .ok ts ↔ r.errors = [] ∧ r.tokens = ts := by
  unfold tokens?
  cases r.errors <;> simp

theorem tokens?_eq_error_iff {r : Scanned} {e : ScanError} :
    r.tokens? = .error e ↔ r.errors.head? = some e := by
  unfold tokens?
  cases r.errors <;> simp

end Scanned

theorem Span.error?_eq_some_iff {s : Span} {e : ScanError} :
    s.error? = some e ↔ s.found = .error e := by
  unfold error?
  split <;> simp [*]

/-- `FirstError filename u rest before p e`: the script `u ++ rest` is refused with the error `e` of
the item `p` at the head of `rest`, and the items in `u` are without errors. -/
structure FirstError (filename : String) (u rest : List Char) (before : List Item) (p : Item)
    (e : ScanError) : Prop where
  found : ∃ others, (Cursor.start (u ++ rest)).items = before ++ p :: others
  start : p.start = u.length
  clean : ∀ i ∈ before, i.error? filename = none
  error : p.error? filename = some e

namespace FirstError

variable {filename : String} {u rest : List Char} {before : List Item} {p : Item} {e : ScanError}

theorem tokens?_eq (h : FirstError filename u rest before p e) :
    (scan (.text (String.ofList (u ++ rest))) filename).tokens? = .error e := by
  obtain ⟨others, found⟩ := h.found
  rw [Scanned.tokens?_eq_error_iff, scan_eq]
  simp only [Source.chars, String.toList_ofList, found, List.filterMap_append,
    List.filterMap_eq_nil_iff.2 h.clean, List.filterMap_cons, h.error, List.nil_append,
    List.head?_cons]

theorem exists_reading (h : FirstError filename u rest before p e) :
    p.reading.verdict = .error e.cause ∧ p.line = e.line := by
  have error := h.error
  unfold Item.error? at error
  split at error
  · cases error
  · rename_i verdict
    cases error
    exact ⟨verdict, rfl⟩

/-- What stands before the error has no errors, and ends on the line of the error. -/
theorem tokens?_front (h : FirstError filename u rest before p e) :
    (scan (.text (String.ofList u)) filename).tokens? =
      .ok (before.filterMap Item.token? ++ [.endOn e.line]) := by
  obtain ⟨others, found⟩ := h.found
  obtain ⟨⟨tail, -, -, line, -⟩, front⟩ :=
    Cursor.items_front found (h.start.trans (Nat.zero_add _).symm)
  have alone := front [] fun r same stands =>
    stands.congr_behind (.inr (by simp)) fun _ _ _ => by simp [EndsLine]
  rw [List.append_nil, Cursor.items_of_all_trivia .none, List.append_nil] at alone
  rw [Scanned.tokens?_eq_ok_iff, scan_eq]
  simp only [Source.chars, String.toList_ofList, Cursor.start, alone]
  rw [← h.exists_reading.2, line]
  exact ⟨List.filterMap_eq_nil_iff.2 h.clean, rfl⟩

/-- The error is the first one of any script with the same front, in which it is read again. -/
theorem congr_behind {tail : List Char} (h : FirstError filename u rest before p e)
    (keep : ∀ (r : Reading) (same : List Char), r.Stands (same ++ rest) →
      r.Stands (same ++ (p.reading.lexeme ++ tail)))
    (stands : p.reading.Stands tail) :
    FirstError filename u (p.reading.lexeme ++ tail) before p e where
  found := by
    obtain ⟨others, found⟩ := h.found
    obtain ⟨⟨_, -, -, line, -⟩, front⟩ :=
      Cursor.items_front found (h.start.trans (Nat.zero_add _).symm)
    have again := front _ keep
    rw [stands.items_eq, ← line, Nat.zero_add, ← h.start] at again
    exact ⟨_, again⟩
  start := h.start
  clean := h.clean
  error := h.error

/-- What is in error is a character, or a quote with the rest of its line. Neither depends on what
stands behind it, and a lexeme in front of it goes on with neither. -/
theorem cases_behind (h : FirstError filename u rest before p e) :
    (∃ x, e.cause = .unexpectedCharacter x ∧ rest.take 1 = [x] ∧
      ∀ tail, FirstError filename u (x :: tail) before p e) ∨
    ∃ content, e.cause = .unterminatedString (String.ofList content) ∧
      ∀ tail, FirstError filename u ('"' :: (content ++ '\n' :: tail)) before p e := by
  obtain ⟨others, found⟩ := h.found
  obtain ⟨⟨tail, text, stands, -, -⟩, -⟩ :=
    Cursor.items_front found (h.start.trans (Nat.zero_add _).symm)
  have verdict := h.exists_reading.1
  rcases stands.cases_error verdict with ⟨x, read, apart, alone⟩ | ⟨content, read⟩
  · left
    rw [read] at verdict text
    refine ⟨x, (Except.error.inj verdict).symm, by rw [text]; rfl, fun tail' => ?_⟩
    have again := h.congr_behind ?_ (alone tail')
    · rw [read] at again
      exact again
    · intro r same before
      rw [read]
      rw [text] at before
      exact before.congr_endsLexeme apart
  · right
    rw [read] at verdict text
    refine ⟨content, (Except.error.inj verdict).symm, fun tail' => ?_⟩
    have cut : p.reading.Stands ('\n' :: tail') := by
      rw [← List.nil_append tail] at stands
      exact stands.congr_behind (.inr (by simp)) fun _ _ _ => by simp
    have again := h.congr_behind ?_ cut
    · rw [read] at again
      exact again
    · intro r same before
      rw [read]
      rw [text] at before
      exact before.congr_endsLexeme (by unfold EndsLexeme; decide)

end FirstError

/-- A script whose tokens are refused has a first error, at the head of what stands behind a front
without errors. -/
theorem exists_firstError {source : Source} {filename : String} {e : ScanError}
    (refused : (scan source filename).tokens? = .error e) : ∃ before p others,
      (Cursor.start source.chars).items = before ++ p :: others ∧
      FirstError filename (source.chars.take p.start) (source.chars.drop p.start) before p e := by
  have first := Scanned.tokens?_eq_error_iff.1 refused
  obtain ⟨more, errors⟩ : ∃ more, (scan source filename).errors = e :: more :=
    List.head?_eq_some_iff.1 first
  rw [scan_eq] at errors
  obtain ⟨before, p, others, found, clean, error, -⟩ := List.filterMap_eq_cons_iff.1 errors
  have bounds := (Source.account_spans source filename).tiles.bounds (p.span filename) (by
    rw [Source.spans, found]
    simp)
  have inside : p.start ≤ source.chars.length := (bounds.2.1.trans_le bounds.2.2).le
  refine ⟨before, p, others, found, ⟨?_, ?_, clean, error⟩⟩
  · rw [List.take_append_drop]
    exact ⟨others, found⟩
  · rw [List.length_take, Nat.min_eq_left inside]

/-- The tokens of a script are returned just where its scan is without errors. Otherwise they are
refused with the first error. What stands before its span is without errors, and has the tokens that
were found there, and the end on the line of the error. And the script is refused with the same
error whatever stands behind the character in error, or behind the line on which a string is cut
off. -/
theorem refused_at_firstError (source : Source) (filename : String) :
    (∀ ts, (scan source filename).tokens? = .ok ts ↔
      (scan source filename).errors = [] ∧ (scan source filename).tokens = ts) ∧
    ∀ e, (scan source filename).tokens? = .error e →
      (scan source filename).errors.head? = some e ∧
      Span.Account source filename (source.spans filename) ∧
      ∃ before span behind, source.spans filename = before ++ span :: behind ∧
        span.found = .error e ∧ (∀ s ∈ before, s.error? = none) ∧
        (scan (.text (String.ofList (source.chars.take span.start))) filename).tokens? =
          .ok (before.filterMap Span.token? ++ [.endOn e.line]) ∧
        ((∃ x, e.cause = .unexpectedCharacter x ∧ ∀ t,
            (scan (.text (String.ofList (source.chars.take (span.start + 1)) ++ t))
              filename).tokens? = .error e) ∨
          ∃ content, e.cause = .unterminatedString content ∧ ∀ t,
            (scan (.text (String.ofList (source.chars.take span.start) ++ "\"" ++ content ++ "\n" ++
              t)) filename).tokens? = .error e) := by
  refine ⟨fun ts => Scanned.tokens?_eq_ok_iff, fun e refused => ?_⟩
  refine ⟨Scanned.tokens?_eq_error_iff.1 refused, Source.account_spans source filename, ?_⟩
  obtain ⟨before, p, others, found, first⟩ := exists_firstError refused
  refine ⟨before.map (Item.span filename), p.span filename, others.map (Item.span filename),
    ?_, ?_, ?_, ?_, ?_⟩
  · rw [Source.spans, found, List.map_append, List.map_cons]
  · rw [← Span.error?_eq_some_iff, Item.error?_span]
    exact first.error
  · simpa [Item.error?_span] using first.clean
  · rw [filterMap_token?_span]
    exact first.tokens?_front
  · rcases first.cases_behind with ⟨x, cause, head, again⟩ | ⟨content, cause, again⟩
    · refine .inl ⟨x, cause, fun t => ?_⟩
      have text : String.ofList (source.chars.take (p.start + 1)) ++ t =
          String.ofList (source.chars.take p.start ++ x :: t.toList) := by
        rw [← String.toList_inj, List.take_add, head]
        simp
      exact (congrArg (fun s => (scan (.text s) filename).tokens?) text).trans
        (again t.toList).tokens?_eq
    · refine .inr ⟨_, cause, fun t => ?_⟩
      have text : String.ofList (source.chars.take p.start) ++ "\"" ++ String.ofList content ++
          "\n" ++ t =
          String.ofList (source.chars.take p.start ++ '"' :: (content ++ '\n' :: t.toList)) := by
        rw [← String.toList_inj]
        simp
      exact (congrArg (fun s => (scan (.text s) filename).tokens?) text).trans
        (again t.toList).tokens?_eq

/-- A string that is cut off behind a name. -/
theorem refused_openString :
    (scan (.text "a \"b") "").tokens? = .error ⟨.unterminatedString "b", 1, some ""⟩ ∧
    (scan (.text "a ") "").tokens? = .ok [⟨.identifier, "a", .null, 1⟩, .endOn 1] ∧
    ∀ t, (scan (.text ("a " ++ "\"" ++ "b" ++ "\n" ++ t)) "").tokens? =
      .error ⟨.unterminatedString "b", 1, some ""⟩ := by
  have refused : (scan (.text "a \"b") "").tokens? =
      .error ⟨.unterminatedString "b", 1, some ""⟩ := by with_unfolding_all rfl
  have spans : (Source.text "a \"b").spans "" = [⟨0, 1, .ok ⟨.identifier, "a", .null, 1⟩⟩,
      ⟨2, 4, .error ⟨.unterminatedString "b", 1, some ""⟩⟩] := by with_unfolding_all rfl
  obtain ⟨-, -, before, span, behind, split, found, clean, front, again⟩ :=
    (refused_at_firstError (.text "a \"b") "").2 _ refused
  rw [spans] at split
  obtain ⟨rfl, rfl⟩ : before = [⟨0, 1, .ok ⟨.identifier, "a", .null, 1⟩⟩] ∧
      span = ⟨2, 4, .error ⟨.unterminatedString "b", 1, some ""⟩⟩ := by
    rcases before with _ | ⟨s, _ | ⟨s', before⟩⟩
    · obtain ⟨rfl, -⟩ := List.cons.inj split
      cases found
    · obtain ⟨rfl, rest⟩ := List.cons.inj split
      exact ⟨rfl, (List.cons.inj rest).1.symm⟩
    · simp at split
  refine ⟨refused, front, ?_⟩
  obtain ⟨x, cause, -⟩ | ⟨content, cause, again⟩ := again
  · cases cause
  · cases cause
    exact again

end ScriptFront
