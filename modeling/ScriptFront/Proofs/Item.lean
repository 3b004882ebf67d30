import ScriptFront.Proofs.Trivia
import ScriptFront.Scan

/-!
# Items of a scan

A scan is the list of its items: what each pass reads behind blanks and comments, with the place
where it stands. Tokens and errors are two views of that list, and nothing else is kept.
-/
namespace ScriptFront

/-- What one pass reads, and where. -/
structure Item where
  start : Nat
  line : Int
  reading : Reading

namespace Item

def stop (i : Item) : Nat := i.start + i.reading.lexeme.length

def token? (i : Item) : Option Token :=
  match i.reading.verdict with
  | .ok (type, literal) => some ⟨type, String.ofList i.reading.lexeme, literal, i.line⟩
  | .error _ => none

def error? (filename : String) (i : Item) : Option ScanError :=
  match i.reading.verdict with
  | .ok _ => none
  | .error cause => some ⟨cause, i.line, some filename⟩

theorem verdict_of_token? {i : Item} {t : Token} (h : i.token? = some t) :
    i.reading.verdict = .ok (t.type, t.literal) := by
  unfold token? at h
  split at h
  · rename_i verdict
    cases h
    exact verdict
  · cases h

theorem lexeme_of_token? {i : Item} {t : Token} (h : i.token? = some t) :
    t.lexeme.toList = i.reading.lexeme := by
  unfold token? at h
  split at h
  · cases h
    exact String.toList_ofList
  · cases h

theorem line_of_token? {i : Item} {t : Token} (h : i.token? = some t) : t.line = i.line := by
  unfold token? at h
  split at h
  · cases h
    rfl
  · cases h

end Item

namespace Cursor

theorem forward_eq {c : Cursor} {n : Nat} (h : n ≤ c.rest.length) :
    c.forward n =
      ⟨c.rest.drop n, c.position + n, c.line + (c.rest.take n).count '\n'⟩ := by
  have rest := rest_forward c n
  have position := position_forward c n
  have line := line_forward c n
  rw [List.length_take, Nat.min_eq_left h] at position
  cases hc : c.forward n
  simp_all

theorem forward_append (head rest : List Char) (position : Nat) (line : Int) :
    forward ⟨head ++ rest, position, line⟩ head.length =
      ⟨rest, position + head.length, line + head.count '\n'⟩ := by
  rw [forward_eq (by simp), List.drop_left, List.take_left]

theorem forward_add (c : Cursor) (m n : Nat) : c.forward (m + n) = (c.forward m).forward n := by
  induction m generalizing c with
  | zero => rw [Nat.zero_add]; rfl
  | succ m ih => rw [Nat.succ_add, forward, ih]; rfl

theorem forward_toEnd {c : Cursor} {n : Nat} (h : n ≤ c.rest.length) :
    (c.forward n).forward (c.forward n).rest.length = c.forward c.rest.length := by
  rw [← forward_add, rest_forward, List.length_drop, Nat.add_sub_cancel' h]

/-- A place of a text, on whatever line. -/
structure Within (text : List Char) (c : Cursor) : Prop where
  position_le : c.position ≤ text.length
  rest_eq : c.rest = text.drop c.position

theorem within_start (text : List Char) : Within text (.start text) := ⟨Nat.zero_le _, rfl⟩

theorem Within.forward {text : List Char} {c : Cursor} (h : Within text c) (n : Nat) :
    Within text (c.forward n) := by
  have length := congrArg List.length h.rest_eq
  rw [List.length_drop] at length
  have inside := h.position_le
  constructor
  · rw [position_forward, List.length_take]
    omega
  · rw [position_forward, rest_forward, h.rest_eq, List.drop_drop, List.length_take,
      List.length_drop]
    rcases Nat.le_total n (text.length - c.position) with short | long
    · rw [Nat.min_eq_left short]
    · rw [Nat.min_eq_right long, List.drop_of_length_le (by omega),
        List.drop_of_length_le (by omega)]

theorem Within.rest_ne_nil_iff {text : List Char} {c : Cursor} (h : Within text c) :
    c.rest ≠ [] ↔ c.position < text.length := by
  rw [h.rest_eq, Ne, List.drop_eq_nil_iff, Nat.not_le]

theorem skipTrivia_of_rest_nil {c : Cursor} (h : c.rest = []) : c.skipTrivia = c := by
  simp [skipTrivia, h, triviaLength, forward]

theorem rest_behind_lt {c : Cursor} {x : Char} {cs : List Char} (h : c.skipTrivia.rest = x :: cs) :
    (c.skipTrivia.forward (Reading.first x cs).lexeme.length).rest.length < c.rest.length := by
  have skipped : (x :: cs).length ≤ c.rest.length := by rw [← h]; simp
  have taken := List.length_pos_iff.2 (Reading.first_lexeme_ne_nil x cs)
  rw [rest_forward, h, List.length_drop]
  simp only [List.length_cons] at *
  omega

def items (c : Cursor) : List Item :=
  match _ : c.skipTrivia.rest with
  | [] => []
  | x :: cs =>
    ⟨c.skipTrivia.position, c.skipTrivia.line, .first x cs⟩ ::
      (c.skipTrivia.forward (Reading.first x cs).lexeme.length).items
termination_by c.rest.length
decreasing_by exact rest_behind_lt (by assumption)

theorem items_nil {c : Cursor} (h : c.skipTrivia.rest = []) : c.items = [] := by
  rw [items]
  split
  · rfl
  · rename_i hcons
    rw [h] at hcons
    cases hcons

theorem items_cons {c : Cursor} {x : Char} {cs : List Char} (h : c.skipTrivia.rest = x :: cs) :
    c.items = ⟨c.skipTrivia.position, c.skipTrivia.line, .first x cs⟩ ::
      (c.skipTrivia.forward (Reading.first x cs).lexeme.length).items := by
  rw [items]
  split
  · rename_i hnil
    rw [h] at hnil
    cases hnil
  · rename_i y ys hy
    obtain ⟨rfl, rfl⟩ := List.cons.inj (hy.symm.trans h)
    rfl

/-- The items from a place on depend on the place behind blanks and comments only. -/
theorem items_congr {c c' : Cursor} (h : c.skipTrivia = c'.skipTrivia) : c.items = c'.items := by
  cases hr : c.skipTrivia.rest with
  | nil => rw [items_nil hr, items_nil (h ▸ hr)]
  | cons x cs =>
    have hr' : c'.skipTrivia.rest = x :: cs := h ▸ hr
    rw [items_cons hr, items_cons hr', h]

theorem skipTrivia_of_trivia {gap rest : List Char} (h : Trivia gap rest) (position : Nat)
    (line : Int) : skipTrivia ⟨gap ++ rest, position, line⟩ =
      skipTrivia ⟨rest, position + gap.length, line + gap.count '\n'⟩ := by
  simp only [skipTrivia, triviaLength_append h]
  rw [forward_add, forward_append]

/-- Trivia in front of a text only moves its items. -/
theorem items_of_trivia {gap rest : List Char} (h : Trivia gap rest) (position : Nat)
    (line : Int) : items ⟨gap ++ rest, position, line⟩ =
      items ⟨rest, position + gap.length, line + gap.count '\n'⟩ :=
  items_congr (skipTrivia_of_trivia h position line)

theorem items_read {x : Char} {cs rest : List Char} (stop : triviaLength false (x :: cs) = 0)
    (same : (Reading.first x cs).lexeme ++ rest = x :: cs) (position : Nat) (line : Int) :
    items ⟨x :: cs, position, line⟩ = ⟨position, line, .first x cs⟩ ::
      items ⟨rest, position + (Reading.first x cs).lexeme.length,
        line + (Reading.first x cs).lexeme.count '\n'⟩ := by
  have here : skipTrivia ⟨x :: cs, position, line⟩ = ⟨x :: cs, position, line⟩ := by
    rw [skipTrivia, stop, forward]
  rw [items_cons (by rw [here]), here]
  simp only [← same, forward_append]

/-- A text is either trivia, or trivia and a lexeme and a text behind them. -/
theorem items_induction {P : List Char → Prop} (trivia : ∀ gap, Trivia gap [] → P gap)
    (item : ∀ gap x cs rest, Trivia gap (x :: cs) → triviaLength false (x :: cs) = 0 →
      (Reading.first x cs).lexeme ++ rest = x :: cs → P rest → P (gap ++ x :: cs))
    (text : List Char) : P text := by
  induction h : text.length using Nat.strongRecOn generalizing text with
  | _ n ih =>
    subst h
    have skipped := trivia_skipped text
    have stop := triviaLength_skipped text
    rw [← List.take_append_drop (triviaLength false text) text]
    cases behind : text.drop (triviaLength false text) with
    | nil =>
      rw [behind] at skipped
      rw [List.append_nil]
      exact trivia _ skipped
    | cons x cs =>
      obtain ⟨rest, same⟩ := Reading.first_lexeme_isPrefix x cs
      have taken := List.length_pos_iff.2 (Reading.first_lexeme_ne_nil x cs)
      have short := congrArg List.length (same.trans behind.symm)
      rw [List.length_append, List.length_drop] at short
      rw [behind] at skipped stop
      exact item _ x cs rest skipped stop same (ih rest.length (by omega) rest rfl)

theorem items_of_all_trivia {gap : List Char} (h : Trivia gap []) (position : Nat) (line : Int) :
    items ⟨gap, position, line⟩ = [] := by
  have moved := items_of_trivia h position line
  rw [List.append_nil] at moved
  rw [moved, items_nil rfl]

theorem reading_of_mem_items {c : Cursor} {i : Item} (h : i ∈ c.items) :
    ∃ x cs, i.reading = .first x cs := by
  obtain ⟨text, position, line⟩ := c
  induction text using items_induction generalizing position line with
  | trivia gap hgap => simp [items_of_all_trivia hgap] at h
  | item gap x cs rest hgap stop same ih =>
    rw [items_of_trivia hgap, items_read stop same] at h
    rcases List.mem_cons.1 h with rfl | h
    · exact ⟨x, cs, rfl⟩
    · exact ih _ _ h

/-- No item stands on a line before the place where the items begin. -/
theorem line_le_of_mem_items {c : Cursor} {i : Item} (h : i ∈ c.items) : c.line ≤ i.line := by
  have line_le_forward : ∀ (c : Cursor) (n : Nat), c.line ≤ (c.forward n).line := by
    intro c n
    rw [line_forward]
    omega
  induction c using items.induct with
  | case1 c rest => simp [items_nil rest] at h
  | case2 c x cs rest ih =>
    have skipped : c.line ≤ c.skipTrivia.line := line_le_forward c _
    rw [items_cons rest] at h
    rcases List.mem_cons.1 h with rfl | h
    · exact skipped
    · have passed := line_le_forward c.skipTrivia (Reading.first x cs).lexeme.length
      have behind := ih h
      omega

end Cursor

namespace Scan

theorem pass_nil {s : Scan} (h : s.cursor.skipTrivia.rest = []) : s.pass = s.skipTrivia := by
  have : s.skipTrivia.cursor.rest = [] := h
  simp [pass, next, this]

theorem pass_cons {s : Scan} {x : Char} {cs : List Char} (h : s.cursor.skipTrivia.rest = x :: cs) :
    s.pass = (s.skipTrivia.take s.cursor.skipTrivia.line (.first x cs)).2.keep
      (s.skipTrivia.take s.cursor.skipTrivia.line (.first x cs)).1 := by
  have : s.skipTrivia.cursor.rest = x :: cs := h
  simp only [pass, next, this]
  rfl

/-- A pass only goes forward, and stays in the text. -/
theorem cursor_pass (s : Scan) :
    ∃ n, n ≤ s.cursor.rest.length ∧ s.pass.cursor = s.cursor.forward n := by
  have skipped := Cursor.triviaLength_le false s.cursor.rest
  cases hr : s.cursor.skipTrivia.rest with
  | nil => exact ⟨_, skipped, by rw [pass_nil hr]; rfl⟩
  | cons x cs =>
    have taken := (Reading.first_lexeme_isPrefix x cs).length_le
    rw [← hr, Cursor.rest_skipTrivia, List.length_drop] at taken
    refine ⟨Cursor.triviaLength false s.cursor.rest + (Reading.first x cs).lexeme.length,
      by omega, ?_⟩
    rw [pass_cons hr, cursor_keep, Cursor.forward_add]
    rfl

/-- A run keeps the items from its cursor on, and ends at the end of the text. -/
theorem run_eq (s : Scan) : s.run =
    { s with
      cursor := s.cursor.forward s.cursor.rest.length
      tokens := s.tokens ++ (s.cursor.items.filterMap Item.token?).toArray
      errors := s.errors ++ (s.cursor.items.filterMap (Item.error? s.filename)).toArray
      records := s.records ++
        ((s.cursor.items.filterMap (Item.error? s.filename)).map
          (Record.scanError s.filename)).toArray } := by
  induction s using run.induct with
  | case1 s h =>
    have none : s.cursor.items = [] := Cursor.items_nil (by simp [h])
    rw [run, if_pos h, none, h]
    simp [Cursor.forward]
  | case2 s h ih =>
    have toEnd : s.pass.cursor.forward s.pass.cursor.rest.length =
        s.cursor.forward s.cursor.rest.length := by
      obtain ⟨n, hn, passed⟩ := cursor_pass s
      rw [passed, Cursor.forward_toEnd hn]
    rw [run, if_neg h, ih, toEnd]
    cases hr : s.cursor.skipTrivia.rest with
    | nil =>
      have none : s.cursor.skipTrivia.items = [] :=
        Cursor.items_nil (by rw [Cursor.skipTrivia_of_rest_nil hr, hr])
      rw [pass_nil hr, Cursor.items_nil hr]
      simp [skipTrivia, none]
    | cons x cs =>
      rw [pass_cons hr, Cursor.items_cons hr]
      cases hv : (Reading.first x cs).verdict with
      | ok p => simp [take, keep, skipTrivia, Item.token?, Item.error?, hv]
      | error cause => simp [take, keep, skipTrivia, Item.token?, Item.error?, hv]

end Scan

/-- A script is scanned into its items and one token of type EOF on its last line. -/
theorem scan_eq (source : Source) (filename : String) : scan source filename =
    ⟨(Cursor.start source.chars).items.filterMap Item.token? ++
        [.endOn (1 + source.chars.count '\n')],
      (Cursor.start source.chars).items.filterMap (Item.error? filename)⟩ := by
  have line := Cursor.line_forward (.start source.chars) source.chars.length
  rw [show (Cursor.start source.chars).rest = source.chars from rfl, List.take_length] at line
  simp only [scan, Scan.complete, Scan.close, Scan.run_eq, Scan.ofSource, Scan.ofChars,
    Scan.restart]
  simp only [show (Cursor.start source.chars).rest = source.chars from rfl, line]
  simp [Cursor.start]

end ScriptFront
