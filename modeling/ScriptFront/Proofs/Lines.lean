import ScriptFront.Proofs.Standing

/-!
# Lines

Nothing that is read goes over a line feed, and a line feed ends whatever the end of the text would
end. So a text and a further one below it are scanned as each of them alone, and only the lines of
the second one move.
-/
namespace ScriptFront

def Token.lowered (n : Int) (t : Token) : Token := { t with line := t.line + n }

def ScanError.lowered (n : Int) (e : ScanError) : ScanError := { e with line := e.line + n }

theorem Token.lowered_lowered (m n : Int) (t : Token) :
    (t.lowered m).lowered n = t.lowered (m + n) := by
  simp [lowered, Int.add_assoc]

theorem ScanError.lowered_lowered (m n : Int) (e : ScanError) :
    (e.lowered m).lowered n = e.lowered (m + n) := by
  simp [lowered, Int.add_assoc]

/-- The item `m` characters further on and `n` lines further down. -/
def Item.moved (m : Nat) (n : Int) (i : Item) : Item :=
  { i with start := i.start + m, line := i.line + n }

/-- What stands in front of a text stands there too when a further line follows. -/
theorem Reading.Stands.append_newline {r : Reading} {rest : List Char} (h : r.Stands rest)
    (more : List Char) : r.Stands (rest ++ '\n' :: more) := by
  rw [← List.append_nil rest] at h
  have newline : ∀ x ∈ ('\n' :: more).head?, x ∈ [' ', '\t', '\r', '\n'] := by simp
  exact h.congr_behind (.inr newline) fun _ _ _ => (endsLine_cons _ _).2 rfl

namespace Cursor

/-- The items of two texts with a line feed between them are the items of either. -/
theorem items_append_newline (text more : List Char) (position : Nat) (line : Int) :
    items ⟨text ++ '\n' :: more, position, line⟩ = items ⟨text, position, line⟩ ++
      items ⟨more, position + (text.length + 1), line + (1 + text.count '\n')⟩ := by
  induction text using standing_induction generalizing position line with
  | trivia gap hgap =>
    have newline : Trivia ['\n'] more := .blank (by simp) .none
    have below : Trivia gap ('\n' :: more) :=
      hgap.congr_behind fun _ => (endsLine_cons _ _).2 rfl
    rw [items_of_all_trivia hgap, items_of_trivia below, List.nil_append,
      ← List.singleton_append, items_of_trivia newline]
    congr 2
    simp only [List.count_singleton_self]
    push_cast
    omega
  | item gap r rest hgap stands ih =>
    have stands' := stands.append_newline more
    rw [List.append_assoc, List.append_assoc, items_of_stands (stands.trivia hgap _) stands',
      items_of_stands hgap stands, ih, List.cons_append, ← List.append_assoc gap]
    congr 4
    · simp only [List.length_append]
      omega
    · simp only [List.count_append]
      push_cast
      omega

/-- From another place the items of a text are the same, and only moved. -/
theorem items_moved (text : List Char) (position m : Nat) (line n : Int) :
    items ⟨text, position + m, line + n⟩ =
      (items ⟨text, position, line⟩).map (Item.moved m n) := by
  induction text using standing_induction generalizing position line with
  | trivia gap hgap => rw [items_of_all_trivia hgap, items_of_all_trivia hgap, List.map_nil]
  | item gap r rest hgap stands ih =>
    rw [items_of_stands hgap stands, items_of_stands hgap stands, List.map_cons, ← ih,
      Nat.add_right_comm position m, Int.add_right_comm line n, Nat.add_right_comm position m,
      Int.add_right_comm line n]
    rfl

end Cursor

theorem filterMap_token?_moved (m : Nat) (n : Int) (is : List Item) :
    (is.map (Item.moved m n)).filterMap Item.token? =
      (is.filterMap Item.token?).map (Token.lowered n) := by
  rw [List.filterMap_map, List.map_filterMap]
  congr 1
  funext i
  cases h : i.reading.verdict <;> simp [Item.token?, Item.moved, Token.lowered, h]

theorem filterMap_error?_moved (filename : String) (m : Nat) (n : Int) (is : List Item) :
    (is.map (Item.moved m n)).filterMap (Item.error? filename) =
      (is.filterMap (Item.error? filename)).map (ScanError.lowered n) := by
  rw [List.filterMap_map, List.map_filterMap]
  congr 1
  funext i
  cases h : i.reading.verdict <;> simp [Item.error?, Item.moved, ScanError.lowered, h]

/-- What a text is scanned into depends on the place where it begins by the line only. -/
theorem tokens_lowered (text : List Char) (position position' : Nat) (line line' : Int) :
    (Cursor.items ⟨text, position', line'⟩).filterMap Item.token? =
      ((Cursor.items ⟨text, position, line⟩).filterMap Item.token?).map
        (Token.lowered (line' - line)) := by
  have here := Cursor.items_moved text 0 position 0 line
  have there := Cursor.items_moved text 0 position' 0 line'
  have total : line + (line' - line) = line' := by omega
  rw [Nat.zero_add, Int.zero_add] at here there
  rw [here, there, filterMap_token?_moved, filterMap_token?_moved, List.map_map]
  simp only [Function.comp_def, Token.lowered_lowered, total]

theorem errors_lowered (filename : String) (text : List Char) (position position' : Nat)
    (line line' : Int) :
    (Cursor.items ⟨text, position', line'⟩).filterMap (Item.error? filename) =
      ((Cursor.items ⟨text, position, line⟩).filterMap (Item.error? filename)).map
        (ScanError.lowered (line' - line)) := by
  have here := Cursor.items_moved text 0 position 0 line
  have there := Cursor.items_moved text 0 position' 0 line'
  have total : line + (line' - line) = line' := by omega
  rw [Nat.zero_add, Int.zero_add] at here there
  rw [here, there, filterMap_error?_moved, filterMap_error?_moved, List.map_map]
  simp only [Function.comp_def, ScanError.lowered_lowered, total]

/-- Two texts with a line feed between them are scanned as either alone: the first one without its
token of type EOF, and the second one on lower lines. -/
theorem scan_append_newline (a b filename : String) :
    ∃ front line, (scan (.text a) filename).tokens = front ++ [.endOn line] ∧
      (scan (.text (a ++ "\n" ++ b)) filename).tokens =
        front ++ (scan (.text b) filename).tokens.map (Token.lowered (1 + a.toList.count '\n')) ∧
      (scan (.text (a ++ "\n" ++ b)) filename).errors =
        (scan (.text a) filename).errors ++
          (scan (.text b) filename).errors.map (ScanError.lowered (1 + a.toList.count '\n')) := by
  have text : (Source.text (a ++ "\n" ++ b)).chars = a.toList ++ '\n' :: b.toList := by
    simp [Source.chars]
  have lower := Cursor.items_moved b.toList 0 (a.toList.length + 1) 1 (1 + a.toList.count '\n')
  have split := Cursor.items_append_newline a.toList b.toList 0 1
  have last : (Token.endOn (1 + (a.toList ++ '\n' :: b.toList).count '\n')) =
      (Token.endOn (1 + b.toList.count '\n')).lowered (1 + a.toList.count '\n') := by
    simp only [Token.endOn, Token.lowered, List.count_append, List.count_cons_self]
    congr 1
    push_cast
    omega
  rw [lower] at split
  simp only [scan_eq, text, Cursor.start, split, last, List.filterMap_append,
    filterMap_token?_moved, filterMap_error?_moved]
  refine ⟨_, _, rfl, ?_, rfl⟩
  rw [List.map_append, List.append_assoc]
  rfl

end ScriptFront
