import ScriptFront.Proofs.Recovery

/-!
# Rules applied one by one

A scan can be moved by hand: rules are applied wherever it stands, in any order, also where they
fail. Whatever is done, its cursor is a place of its text, on the line that the line feeds before it
make; so every token and every error of a whole scan has the line that its first character is on.
-/
namespace ScriptFront

namespace Cursor

/-- A place of a text: what is left of the text there, and the line it is on. -/
structure InText (text : List Char) (c : Cursor) : Prop where
  position_le : c.position ≤ text.length
  rest_eq : c.rest = text.drop c.position
  line_eq : c.line = 1 + (text.take c.position).count '\n'

theorem inText_start (text : List Char) : InText text (.start text) where
  position_le := Nat.zero_le _
  rest_eq := rfl
  line_eq := rfl

theorem InText.forward {text : List Char} {c : Cursor} (h : InText text c) (n : Nat) :
    InText text (c.forward n) := by
  have within : Within text (c.forward n) := Within.forward ⟨h.position_le, h.rest_eq⟩ n
  refine ⟨within.position_le, within.rest_eq, ?_⟩
  have passed : text.take (c.forward n).position = text.take c.position ++ c.rest.take n := by
    rw [position_forward, List.take_add, ← h.rest_eq, List.length_take, ← List.take_eq_take_min]
  rw [line_forward, passed, List.count_append, h.line_eq, Int.natCast_add, Int.add_assoc]

theorem line_of_mem_items {text : List Char} {c : Cursor} (h : InText text c) :
    ∀ i ∈ c.items, i.line = 1 + (text.take i.start).count '\n' := by
  induction c using items.induct with
  | case1 c rest => simp [items_nil rest]
  | case2 c x cs rest ih =>
    have skipped : InText text c.skipTrivia := h.forward _
    rw [items_cons rest]
    intro i mem
    rcases List.mem_cons.1 mem with rfl | mem
    · exact skipped.line_eq
    · exact ih (skipped.forward _) i mem

end Cursor

def Span.line (s : Span) : Int :=
  match s.found with
  | .ok token => token.line
  | .error e => e.line

theorem Item.line_span (filename : String) (i : Item) : (i.span filename).line = i.line := by
  cases verdict : i.reading.verdict <;> simp [span, Span.line, verdict]

namespace Scan

/-- What can be done with a scan. A rule is told the line for its token or its error. -/
inductive Operation
  | complete
  | next
  | skipTrivia
  | advance
  | look (offset : Int)
  | string (line : Int)
  | number (line : Int)
  | word (line : Int)
deriving DecidableEq, Repr

/-- The scan that an attempt leaves. -/
def attempted (s : Scan) : Except Fault (Except ScanError Token × Scan) → Scan
  | .ok (_, after) => after
  | .error _ => s

/-- The scan after an operation, whatever that gives or fails with. -/
def perform (s : Scan) : Operation → Scan
  | .complete => s.complete
  | .next => s.attempted s.next
  | .skipTrivia => s.skipTrivia
  | .advance => s.advance
  | .look _ => s
  | .string line => (s.string line).2
  | .number line => s.attempted (s.number line)
  | .word line => (s.word line).2

def after (source : Source) (filename : String) (ops : List Operation) : Scan :=
  ops.foldl perform (ofSource source filename)

/-- Short of a whole scan, all that an operation can do is to go forward. -/
theorem perform_eq_forward (s : Scan) {op : Operation} (h : op ≠ .complete) :
    ∃ n, s.perform op = { s with cursor := s.cursor.forward n } := by
  cases op with
  | complete => exact absurd rfl h
  | skipTrivia => exact ⟨_, rfl⟩
  | advance => exact ⟨1, rfl⟩
  | look offset => exact ⟨0, rfl⟩
  | string line | word line => exact ⟨_, rfl⟩
  | next =>
    simp only [perform, next]
    cases s.cursor.rest with
    | nil => exact ⟨0, rfl⟩
    | cons x cs => exact ⟨_, rfl⟩
  | number line =>
    simp only [perform, number]
    split_ifs
    · exact ⟨0, rfl⟩
    · exact ⟨_, rfl⟩

theorem source_complete (s : Scan) : s.complete.source = s.source := by
  simp [complete, close, run_eq, restart]

/-- A whole scan ends at the end of its text, however it was moved before. -/
theorem cursor_complete (s : Scan) :
    s.complete.cursor = (Cursor.start s.source).forward s.source.length := by
  simp [complete, close, run_eq, restart, Cursor.start]

theorem source_perform (s : Scan) (op : Operation) : (s.perform op).source = s.source := by
  by_cases whole : op = .complete
  · rw [whole]
    exact s.source_complete
  · obtain ⟨n, forward⟩ := s.perform_eq_forward whole
    rw [forward]

/-- An operation leads from places of the text to places of the text. -/
theorem inText_perform {s : Scan} (h : s.cursor.InText s.source) (op : Operation) :
    (s.perform op).cursor.InText s.source := by
  by_cases whole : op = .complete
  · rw [whole, perform, cursor_complete]
    exact (Cursor.inText_start s.source).forward _
  · obtain ⟨n, forward⟩ := s.perform_eq_forward whole
    rw [forward]
    exact h.forward n

theorem inText_after (source : Source) (filename : String) (ops : List Operation) :
    (after source filename ops).cursor.InText source.chars := by
  have run : ∀ s : Scan, s.cursor.InText s.source →
      (ops.foldl perform s).cursor.InText s.source := by
    induction ops with
    | nil => exact fun s h => h
    | cons op ops ih =>
      intro s h
      have step := inText_perform h op
      rw [← s.source_perform op] at step ⊢
      exact ih _ step
  exact run (ofSource source filename) (Cursor.inText_start source.chars)

end Scan

/-- Whatever is done with a scan, its cursor is a place of the text, on the line that the line feeds
before it make. Only a whole scan goes back, or changes what was found; and a whole scan gives each
token and each error the line that its span starts on, and the token of type EOF the last line. -/
theorem scan_places (source : Source) (filename : String) :
    (∀ ops : List Scan.Operation,
      (Scan.after source filename ops).cursor.InText source.chars ∧
      ∀ op, op ≠ .complete →
        (Scan.after source filename ops).cursor.position ≤
          (Scan.after source filename (ops ++ [op])).cursor.position ∧
        (Scan.after source filename (ops ++ [op])).tokens =
          (Scan.after source filename ops).tokens ∧
        (Scan.after source filename (ops ++ [op])).errors =
          (Scan.after source filename ops).errors) ∧
    Span.Tiles source.chars 0 (source.spans filename) ∧
    (∀ s ∈ source.spans filename, s.line = 1 + (source.chars.take s.start).count '\n') ∧
    (scan source filename).tokens =
      (source.spans filename).filterMap Span.token? ++ [.endOn (1 + source.chars.count '\n')] ∧
    (scan source filename).errors = (source.spans filename).filterMap Span.error? := by
  have account := source.account_spans filename
  refine ⟨?_, account.tiles, ?_, account.tokens, account.errors⟩
  · intro ops
    refine ⟨Scan.inText_after source filename ops, ?_⟩
    intro op partly
    obtain ⟨n, forward⟩ := (Scan.after source filename ops).perform_eq_forward partly
    have last : Scan.after source filename (ops ++ [op]) =
        (Scan.after source filename ops).perform op := by
      simp [Scan.after]
    rw [last, forward]
    refine ⟨?_, rfl, rfl⟩
    rw [Cursor.position_forward]
    exact Nat.le_add_right _ _
  · intro s mem
    obtain ⟨i, found, rfl⟩ := List.mem_map.1 mem
    rw [Item.line_span]
    exact Cursor.line_of_mem_items (Cursor.inText_start source.chars) i found

end ScriptFront
