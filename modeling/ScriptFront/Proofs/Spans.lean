import ScriptFront.Proofs.Item
import ScriptFront.Proofs.Lexeme
import ScriptFront.Proofs.Stretch

/-!
# Spans

Every token and every error of a scan stands for one stretch of the text. The stretches are in
order, none is empty, and what lies between them is trivia, so a scan loses nothing and reports
nothing twice.
-/
namespace ScriptFront

/-- A stretch of a text, from `start` up to `stop`, and what was found there. -/
structure Span where
  start : Nat
  stop : Nat
  found : Except ScanError Token

namespace Span

def token? (s : Span) : Option Token :=
  match s.found with
  | .ok token => some token
  | .error _ => none

def error? (s : Span) : Option ScanError :=
  match s.found with
  | .ok _ => none
  | .error e => some e

/-- What was found is what the stretch holds: the lexeme of a token, the character that no token
starts with, or an opening quote and what stands behind it up to the end of the line. -/
def Holds (cs : List Char) (s : Span) : Prop :=
  match s.found with
  | .ok token => token.lexeme.toList = cs.extract s.start s.stop
  | .error e => match e.cause with
    | .unexpectedCharacter x => cs.extract s.start s.stop = [x]
    | .unterminatedString content =>
      cs.extract s.start s.stop = '"' :: content.toList ∧ EndsLine (cs.drop s.stop)
    | _ => False

/-- The stretches that a list of spans leaves free, from `i` up to `n`. -/
def gaps (n : Nat) : Nat → List Span → List (Nat × Nat)
  | i, [] => [(i, n)]
  | i, s :: spans => (i, s.start) :: gaps n s.stop spans

/-- The stretches of a text with spans in it: gaps and spans in turn, from `i` up to `n`. -/
def stretches (n : Nat) : Nat → List Span → List (Nat × Nat)
  | i, [] => [(i, n)]
  | i, s :: spans => (i, s.start) :: (s.start, s.stop) :: stretches n s.stop spans

/-- From `i` on, the spans go forward over the whole text, and leave only trivia free. -/
def Tiles (cs : List Char) : Nat → List Span → Prop
  | i, [] => i ≤ cs.length ∧ Trivia (cs.drop i) []
  | i, s :: spans => i ≤ s.start ∧ s.start < s.stop ∧
    Trivia (cs.extract i s.start) (cs.drop s.start) ∧ s.Holds cs ∧ Tiles cs s.stop spans

variable {cs : List Char} {i : Nat} {spans : List Span}

theorem Tiles.start_le (h : Tiles cs i spans) : i ≤ cs.length := by
  induction spans generalizing i with
  | nil => exact h.1
  | cons s spans ih =>
    obtain ⟨before, pos, -, -, rest⟩ := h
    have := ih rest
    omega

theorem Tiles.bounds (h : Tiles cs i spans) :
    ∀ s ∈ spans, i ≤ s.start ∧ s.start < s.stop ∧ s.stop ≤ cs.length := by
  induction spans generalizing i with
  | nil => simp
  | cons s spans ih =>
    obtain ⟨before, pos, -, -, rest⟩ := h
    intro t ht
    rcases List.mem_cons.1 ht with rfl | ht
    · exact ⟨before, pos, rest.start_le⟩
    · obtain ⟨after, bounds⟩ := ih rest t ht
      exact ⟨by omega, bounds⟩

theorem Tiles.pairwise (h : Tiles cs i spans) : spans.Pairwise (fun s t => s.stop ≤ t.start) := by
  induction spans generalizing i with
  | nil => exact .nil
  | cons s spans ih =>
    obtain ⟨-, -, -, -, rest⟩ := h
    constructor
    · intro t ht
      exact (rest.bounds t ht).1
    · exact ih rest

theorem Tiles.holds (h : Tiles cs i spans) : ∀ s ∈ spans, s.Holds cs := by
  induction spans generalizing i with
  | nil => simp
  | cons s spans ih =>
    obtain ⟨-, -, -, found, rest⟩ := h
    exact List.forall_mem_cons.2 ⟨found, ih rest⟩

theorem Tiles.trivia (h : Tiles cs i spans) :
    ∀ g ∈ gaps cs.length i spans, Trivia (cs.extract g.1 g.2) (cs.drop g.2) := by
  induction spans generalizing i with
  | nil =>
    have whole : (cs.drop i).take (cs.length - i) = cs.drop i :=
      List.take_of_length_le (by simp)
    simpa [gaps, whole] using h.2
  | cons s spans ih =>
    obtain ⟨-, -, free, -, rest⟩ := h
    exact List.forall_mem_cons.2 ⟨free, ih rest⟩

theorem Tiles.flatten (h : Tiles cs i spans) :
    ((stretches cs.length i spans).map (fun g => cs.extract g.1 g.2)).flatten = cs.drop i := by
  induction spans generalizing i with
  | nil => simp [stretches, List.take_of_length_le]
  | cons s spans ih =>
    obtain ⟨before, pos, -, -, rest⟩ := h
    simp only [stretches, List.map_cons, List.flatten_cons]
    rw [ih rest, extract_append_drop (Nat.le_of_lt pos), extract_append_drop before]

end Span

def Item.span (filename : String) (i : Item) : Span :=
  ⟨i.start, i.stop,
    match i.reading.verdict with
    | .ok (type, literal) => .ok ⟨type, String.ofList i.reading.lexeme, literal, i.line⟩
    | .error cause => .error ⟨cause, i.line, some filename⟩⟩

theorem Item.token?_span (filename : String) (i : Item) : (i.span filename).token? = i.token? := by
  cases h : i.reading.verdict <;> simp [span, Span.token?, token?, h]

theorem Item.error?_span (filename : String) (i : Item) :
    (i.span filename).error? = i.error? filename := by
  cases h : i.reading.verdict <;> simp [span, Span.error?, error?, h]

/-- What was read at a place of a text is what its stretch there holds. -/
theorem Item.span_holds {filename : String} {text : List Char} {start : Nat} {line : Int} {x : Char}
    {cs rest : List Char} (same : (Reading.first x cs).lexeme ++ rest = x :: cs)
    (here : text.drop start = (Reading.first x cs).lexeme ++ rest) :
    (Item.span filename ⟨start, line, .first x cs⟩).Holds text := by
  have stretch := extract_of_drop here
  have behind := drop_of_drop here
  rcases Reading.first_cases x cs with ⟨type, literal, -, verdict⟩ |
    ⟨content, rest', hcs, -, ends, quote, read⟩ | ⟨-, read⟩
  · simp only [Span.Holds, span, stop, verdict, stretch, String.toList_ofList]
  · rw [read] at stretch behind same
    have hrest : rest = rest' := by
      rw [hcs, quote] at same
      simpa using same
    simp only [Span.Holds, span, stop, read, stretch, behind, String.toList_ofList, true_and]
    rwa [hrest]
  · rw [read] at stretch
    simp only [Span.Holds, span, stop, read, stretch]

/-- The items of a text are the spans that tile it. -/
theorem tiles_items (filename : String) (text cs : List Char) (position : Nat) (line : Int)
    (here : text.drop position = cs) (inside : position ≤ text.length) :
    Span.Tiles text position
      ((Cursor.items ⟨cs, position, line⟩).map (Item.span filename)) := by
  induction cs using Cursor.items_induction generalizing position line with
  | trivia gap hgap =>
    rw [Cursor.items_of_all_trivia hgap]
    exact ⟨inside, by rwa [here]⟩
  | item gap x cs rest hgap stop same ih =>
    have start := drop_of_drop here
    rw [← same] at start
    have taken := List.length_pos_iff.2 (Reading.first_lexeme_ne_nil x cs)
    have long := congrArg List.length start
    simp only [List.length_drop, List.length_append] at long
    rw [Cursor.items_of_trivia hgap, Cursor.items_read stop same]
    refine ⟨by simp [Item.span], by simp only [Item.span, Item.stop]; omega, ?_,
      Item.span_holds same start, ?_⟩
    · simp only [Item.span, extract_of_drop here, start, same]
      exact hgap
    · exact ih _ _ (drop_of_drop start) (by simp only [Item.span, Item.stop]; omega)

theorem filterMap_token?_span (filename : String) (is : List Item) :
    (is.map (Item.span filename)).filterMap Span.token? = is.filterMap Item.token? := by
  rw [List.filterMap_map]
  exact congrArg (is.filterMap ·) (funext fun i => i.token?_span filename)

theorem filterMap_error?_span (filename : String) (is : List Item) :
    (is.map (Item.span filename)).filterMap Span.error? =
      is.filterMap (Item.error? filename) := by
  rw [List.filterMap_map]
  exact congrArg (is.filterMap ·) (funext fun i => i.error?_span filename)

/-- Every token found is a lexeme of its type, for its literal. -/
theorem lexeme_of_mem_items {c : Cursor} {t : Token}
    (h : t ∈ c.items.filterMap Item.token?) : Lexeme t.lexeme.toList t.type t.literal := by
  obtain ⟨i, hi, ht⟩ := List.mem_filterMap.1 h
  obtain ⟨x, cs, read⟩ := Cursor.reading_of_mem_items hi
  have verdict := i.verdict_of_token? ht
  have text := i.lexeme_of_token? ht
  rw [read] at verdict text
  rw [text]
  exact Reading.lexeme_of_verdict verdict

theorem type_ne_eof_of_mem_items {c : Cursor} {t : Token}
    (h : t ∈ c.items.filterMap Item.token?) : t.type ≠ .eof := by
  exact (lexeme_of_mem_items h).type_ne_eof

/-- A scan loses nothing and reports nothing twice: its tokens and errors stand for spans of the
text that do not overlap, and blanks and comments are all that lies before, between and after. -/
theorem scan_spans (source : Source) (filename : String) :
    ∃ spans : List Span,
      (∀ s ∈ spans, s.start < s.stop ∧ s.stop ≤ source.chars.length) ∧
      spans.Pairwise (fun s t => s.stop ≤ t.start) ∧
      (∃ line, (scan source filename).tokens = spans.filterMap Span.token? ++ [.endOn line]) ∧
      (∀ t ∈ spans.filterMap Span.token?, t.type ≠ .eof) ∧
      (scan source filename).errors = spans.filterMap Span.error? ∧
      (∀ s ∈ spans, s.Holds source.chars) ∧
      (∀ g ∈ Span.gaps source.chars.length 0 spans,
        Trivia (source.chars.extract g.1 g.2) (source.chars.drop g.2)) ∧
      ((Span.stretches source.chars.length 0 spans).map
        (fun g => source.chars.extract g.1 g.2)).flatten = source.chars := by
  have tiles := tiles_items filename source.chars source.chars 0 1 rfl (Nat.zero_le _)
  refine ⟨(Cursor.start source.chars).items.map (Item.span filename), ?_, tiles.pairwise, ?_, ?_,
    ?_, tiles.holds, tiles.trivia, tiles.flatten⟩
  · intro s hs
    exact (tiles.bounds s hs).2
  · rw [filterMap_token?_span, scan_eq]
    exact ⟨_, rfl⟩
  · rw [filterMap_token?_span]
    intro t ht
    exact type_ne_eof_of_mem_items ht
  · rw [filterMap_error?_span, scan_eq]

end ScriptFront
