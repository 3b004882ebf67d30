import ScriptFront.Proofs.Spans
import ScriptFront.Proofs.Standing

/-!
# Recovery

Errors do not disturb the tokens around them. With a space in the place of every character that an
error covers, a script is scanned without errors, and into the same tokens. For the tokens in front
of an error depend on nothing in it: they stand in front of a space as well. And the scan goes on
right behind the error, on the same line, as it does behind blanks.
-/
namespace ScriptFront

/-- A text that begins at place `start`, with a space at every bad place. -/
def blanked (bad : Nat → Bool) (start : Nat) (cs : List Char) : List Char :=
  cs.mapIdx fun k x => if bad (start + k) then ' ' else x

variable {bad : Nat → Bool}

theorem blanked_cons (bad : Nat → Bool) (start : Nat) (x : Char) (cs : List Char) :
    blanked bad start (x :: cs) = (if bad start then ' ' else x) :: blanked bad (start + 1) cs := by
  simp only [blanked, List.mapIdx_cons, Nat.add_zero, Nat.add_assoc, Nat.add_comm 1]

theorem blanked_append (bad : Nat → Bool) (start : Nat) (cs ds : List Char) :
    blanked bad start (cs ++ ds) = blanked bad start cs ++ blanked bad (start + cs.length) ds := by
  simp only [blanked, List.mapIdx_append, Nat.add_assoc, Nat.add_comm cs.length]

/-- Where all places are bad, or none, a text becomes spaces or stays as it is. -/
theorem blanked_eq_map {b : Bool} {start : Nat} {cs : List Char}
    (same : ∀ k, start ≤ k → k < start + cs.length → bad k = b) :
    blanked bad start cs = cs.map fun x => if b then ' ' else x := by
  induction cs generalizing start with
  | nil => rfl
  | cons x cs ih =>
    rw [List.length_cons] at same
    have behind : ∀ k, start + 1 ≤ k → k < start + 1 + cs.length → bad k = b := by
      intro k after lt
      exact same k (by omega) (by omega)
    rw [blanked_cons, same start (by omega) (by omega), ih behind, List.map_cons]

theorem blanked_of_good {start : Nat} {cs : List Char}
    (good : ∀ k, start ≤ k → k < start + cs.length → bad k = false) :
    blanked bad start cs = cs := by
  simpa using blanked_eq_map good

/-- A text stays as it is up to the first space that is put there. -/
theorem exists_blanked (bad : Nat → Bool) (start : Nat) (cs : List Char) :
    ∃ same tail tail', cs = same ++ tail ∧ blanked bad start cs = same ++ tail' ∧
      ∀ x ∈ tail'.head?, x = ' ' := by
  induction cs generalizing start with
  | nil => exact ⟨[], [], [], rfl, rfl, by simp⟩
  | cons x cs ih =>
    rw [blanked_cons]
    cases bad start with
    | true => exact ⟨[], x :: cs, _, rfl, rfl, by simp⟩
    | false =>
      obtain ⟨same, tail, tail', text, blank, space⟩ := ih (start + 1)
      exact ⟨x :: same, tail, tail', by rw [text]; rfl, by rw [blank]; rfl, space⟩

/-- A token stands where spaces take the place of what follows it. -/
theorem Reading.Stands.blanked {r : Reading} {rest : List Char} (h : r.Stands rest)
    (token : ∃ p, r.verdict = .ok p) (bad : Nat → Bool) (start : Nat) :
    r.Stands (blanked bad start rest) := by
  obtain ⟨p, verdict⟩ := token
  obtain ⟨same, tail, tail', rfl, blank, space⟩ := exists_blanked bad start rest
  rw [blank]
  apply h.congr_behind
  · exact .inr fun x head => by simp [space x head]
  · intro _ content cut
    rw [verdict] at cut
    cases cut

theorem trivia_spaces (n : Nat) (rest : List Char) : Trivia (List.replicate n ' ') rest := by
  induction n with
  | zero => exact .none
  | succ n ih => exact .blank (by simp) ih

namespace Cursor

theorem start_ge_of_mem_items {text : List Char} {position : Nat} {line : Int} {i : Item}
    (h : i ∈ items ⟨text, position, line⟩) : position ≤ i.start := by
  induction text using standing_induction generalizing position line with
  | trivia gap hgap => simp [items_of_all_trivia hgap] at h
  | item gap r rest hgap stands ih =>
    rw [items_of_stands hgap stands] at h
    rcases List.mem_cons.1 h with rfl | h
    · exact Nat.le_add_right _ _
    · have := ih h
      omega

theorem stop_gt_of_mem_items {text : List Char} {position : Nat} {line : Int} {i : Item}
    (h : i ∈ items ⟨text, position, line⟩) : position < i.stop := by
  obtain ⟨x, cs, read⟩ := reading_of_mem_items h
  have taken := List.length_pos_iff.2 (Reading.first_lexeme_ne_nil x cs)
  have start := start_ge_of_mem_items h
  rw [Item.stop, read]
  omega

end Cursor

def Item.isToken (i : Item) : Bool := i.token?.isSome

/-- From a place on, the bad places are those that errors cover. -/
def Marked (bad : Nat → Bool) (position : Nat) (is : List Item) : Prop :=
  ∀ k, position ≤ k → (bad k = true ↔ ∃ i ∈ is, i.isToken = false ∧ i.start ≤ k ∧ k < i.stop)

namespace Marked

variable {position : Nat} {i : Item} {is : List Item}

theorem of_nil (h : Marked bad position []) {k : Nat} (after : position ≤ k) : bad k = false := by
  simpa using h k after

theorem before (h : Marked bad position (i :: is)) (later : ∀ j ∈ is, i.stop ≤ j.start) {k : Nat}
    (after : position ≤ k) (lt : k < i.start) : bad k = false := by
  rw [← Bool.not_eq_true, h k after]
  rintro ⟨j, mem, -, start, -⟩
  have forward : i.start ≤ i.stop := Nat.le_add_right _ _
  rcases List.mem_cons.1 mem with rfl | mem
  · omega
  · have apart := later j mem
    omega

/-- The first item is bad throughout or nowhere. -/
theorem inside (h : Marked bad position (i :: is)) (later : ∀ j ∈ is, i.stop ≤ j.start)
    (ahead : position ≤ i.start) {k : Nat} (start : i.start ≤ k) (stop : k < i.stop) :
    bad k = !i.isToken := by
  rw [Bool.eq_iff_iff, h k (by omega), Bool.not_eq_true']
  constructor
  · rintro ⟨j, mem, error, start', -⟩
    rcases List.mem_cons.1 mem with rfl | mem
    · exact error
    · have apart := later j mem
      omega
  · intro error
    exact ⟨i, List.mem_cons_self, error, start, stop⟩

theorem blanked_lexeme (h : Marked bad position (i :: is)) (later : ∀ j ∈ is, i.stop ≤ j.start)
    (ahead : position ≤ i.start) : blanked bad i.start i.reading.lexeme =
      i.reading.lexeme.map fun x => if !i.isToken then ' ' else x :=
  blanked_eq_map fun _ start stop => h.inside later ahead start stop

/-- Behind the first item the others decide. -/
theorem behind (h : Marked bad position (i :: is)) (ahead : position ≤ i.start) :
    Marked bad i.stop is := by
  intro k after
  have forward : i.start ≤ i.stop := Nat.le_add_right _ _
  rw [h k (by omega)]
  constructor
  · rintro ⟨j, mem, error, start, stop⟩
    rcases List.mem_cons.1 mem with rfl | mem
    · omega
    · exact ⟨j, mem, error, start, stop⟩
  · rintro ⟨j, mem, found⟩
    exact ⟨j, List.mem_cons_of_mem i mem, found⟩

end Marked

namespace Cursor

/-- With spaces in the place of the errors a text has the items it had, less the errors, and the
same lines. -/
theorem items_blanked (text : List Char) (position : Nat) (line : Int)
    (marked : Marked bad position (items ⟨text, position, line⟩)) :
    items ⟨blanked bad position text, position, line⟩ =
        (items ⟨text, position, line⟩).filter Item.isToken ∧
      (blanked bad position text).count '\n' = text.count '\n' := by
  induction text using standing_induction generalizing position line with
  | trivia gap hgap =>
    rw [items_of_all_trivia hgap] at marked ⊢
    rw [blanked_of_good fun k after _ => marked.of_nil after, items_of_all_trivia hgap]
    exact ⟨rfl, rfl⟩
  | item gap r rest hgap stands ih =>
    rw [items_of_stands hgap stands, List.length_append, ← Nat.add_assoc] at marked ⊢
    have later : ∀ j ∈ items ⟨rest, position + gap.length + r.lexeme.length,
        line + (gap ++ r.lexeme).count '\n'⟩,
        position + gap.length + r.lexeme.length ≤ j.start := fun j => start_ge_of_mem_items
    have ahead : position ≤ position + gap.length := Nat.le_add_right _ _
    have gapGood : blanked bad position gap = gap :=
      blanked_of_good fun k after lt => marked.before later after lt
    have behind : Marked bad (position + gap.length + r.lexeme.length) (items ⟨rest, _, _⟩) :=
      marked.behind ahead
    obtain ⟨found, lines⟩ := ih _ _ behind
    have lexeme := marked.blanked_lexeme later ahead
    rw [blanked_append, blanked_append, gapGood]
    cases verdict : r.verdict with
    | ok p =>
      have token : Item.isToken ⟨position + gap.length, line + gap.count '\n', r⟩ = true := by
        simp [Item.isToken, Item.token?, verdict]
      have kept : blanked bad (position + gap.length) r.lexeme = r.lexeme := by
        simpa [token] using lexeme
      have stands' := stands.blanked ⟨p, verdict⟩ bad (position + gap.length + r.lexeme.length)
      rw [kept, items_of_stands (stands.trivia hgap _) stands', List.length_append, ← Nat.add_assoc, found,
        List.filter_cons_of_pos token]
      exact ⟨rfl, by simp only [List.count_append, lines]⟩
    | error cause =>
      have error : Item.isToken ⟨position + gap.length, line + gap.count '\n', r⟩ = false := by
        simp [Item.isToken, Item.token?, verdict]
      have spaces : blanked bad (position + gap.length) r.lexeme =
          List.replicate r.lexeme.length ' ' := by
        simpa [error, List.map_const'] using lexeme
      have noLine : (List.replicate r.lexeme.length ' ').count '\n' = r.lexeme.count '\n' := by
        rw [List.count_eq_zero.2 stands.newline_not_mem, List.count_replicate]
        rfl
      rw [spaces, items_of_trivia (stands.trivia hgap _), items_of_trivia (trivia_spaces _ _), noLine,
        List.length_replicate, Int.add_assoc, ← Int.natCast_add, ← List.count_append, found,
        List.filter_cons_of_neg (by simp [error])]
      exact ⟨rfl, by simp only [List.count_append, lines, noLine]⟩

end Cursor

/-- The spans of a script: what each item of its scan stands for. -/
def Source.spans (source : Source) (filename : String) : List Span :=
  (Cursor.start source.chars).items.map (Item.span filename)

/-- Spans that account for a scan: they tile the text, and what was found in them, in their order, is
the tokens and the errors of the scan. -/
structure Span.Account (source : Source) (filename : String) (spans : List Span) : Prop where
  tiles : Tiles source.chars 0 spans
  tokens : (scan source filename).tokens =
    spans.filterMap token? ++ [.endOn (1 + source.chars.count '\n')]
  errors : (scan source filename).errors = spans.filterMap error?

theorem Source.account_spans (source : Source) (filename : String) :
    Span.Account source filename (source.spans filename) where
  tiles := tiles_items filename source.chars source.chars 0 1 rfl (Nat.zero_le _)
  tokens := by rw [spans, filterMap_token?_span, scan_eq]
  errors := by rw [spans, filterMap_error?_span, scan_eq]

/-- Whether some error covers a place. -/
def Span.erroneous (spans : List Span) (k : Nat) : Bool :=
  spans.any fun s => s.error?.isSome && decide (s.start ≤ k ∧ k < s.stop)

/-- The script with a space in the place of every character that an error covers. -/
def Source.withoutErrors (source : Source) (filename : String) : Source :=
  .text (String.ofList (blanked (Span.erroneous (source.spans filename)) 0 source.chars))

theorem Item.error?_isSome_span (filename : String) (i : Item) :
    (i.span filename).error?.isSome = !i.isToken := by
  rw [error?_span]
  cases verdict : i.reading.verdict <;> simp [error?, isToken, token?, verdict]

theorem marked_erroneous (source : Source) (filename : String) :
    Marked (Span.erroneous (source.spans filename)) 0 (Cursor.start source.chars).items := by
  intro k _
  simp only [Span.erroneous, Source.spans, List.any_map, List.any_eq_true, Function.comp_apply,
    Item.error?_isSome_span, Bool.and_eq_true, Bool.not_eq_true', decide_eq_true_eq]
  rfl

theorem filterMap_token?_isToken (is : List Item) :
    (is.filter Item.isToken).filterMap Item.token? = is.filterMap Item.token? := by
  rw [List.filterMap_filter]
  congr 1
  funext i
  cases found : i.token? <;> simp [Item.isToken, found]

theorem filterMap_error?_isToken (filename : String) (is : List Item) :
    (is.filter Item.isToken).filterMap (Item.error? filename) = [] := by
  rw [List.filterMap_eq_nil_iff]
  intro i mem
  have token := (List.mem_filter.1 mem).2
  rw [← Item.error?_span, ← Option.isNone_iff_eq_none, ← Option.not_isSome,
    Item.error?_isSome_span, token]
  rfl

/-- Errors leave the tokens around them alone. The spans of a script account for all its errors, and
with spaces in their place the script has the same tokens, on the same lines, and no error. -/
theorem scan_withoutErrors (source : Source) (filename : String) :
    Span.Tiles source.chars 0 (source.spans filename) ∧
    (scan source filename).errors = (source.spans filename).filterMap Span.error? ∧
    scan (source.withoutErrors filename) filename = ⟨(scan source filename).tokens, []⟩ := by
  have account := source.account_spans filename
  have chars : (source.withoutErrors filename).chars =
      blanked (Span.erroneous (source.spans filename)) 0 source.chars := String.toList_ofList
  obtain ⟨items, lines⟩ :=
    Cursor.items_blanked source.chars 0 1 (marked_erroneous source filename)
  refine ⟨account.tiles, account.errors, ?_⟩
  rw [scan_eq, scan_eq, chars, lines, Cursor.start, Cursor.start, items,
    filterMap_token?_isToken, filterMap_error?_isToken]

end ScriptFront
