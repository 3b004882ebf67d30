import ScriptFront.Proofs.Recovery
import ScriptFront.Proofs.Standing

/-!
# Bounded lookahead

A scan looks two characters ahead and no further. So what it has found two characters before the end
of a text is settled: it is found again, and first, in every longer text.
-/
namespace ScriptFront

namespace Cursor

/-- What stops two characters before the end is found again whatever is appended. -/
theorem filter_items_isPrefix (text more : List Char) (position : Nat) (line : Int) :
    (items ⟨text, position, line⟩).filter (fun i => i.stop + 2 ≤ position + text.length) <+:
      items ⟨text ++ more, position, line⟩ := by
  induction text using standing_induction generalizing position line with
  | trivia gap hgap => simp [items_of_all_trivia hgap]
  | item gap r rest hgap stands ih =>
    have stop : Item.stop ⟨position + gap.length, line + gap.count '\n', r⟩ =
        position + (gap ++ r.lexeme).length := by
      rw [Item.stop, List.length_append, Nat.add_assoc]
    have length : position + (gap ++ (r.lexeme ++ rest)).length =
        position + (gap ++ r.lexeme).length + rest.length := by
      rw [← List.append_assoc, List.length_append, Nat.add_assoc]
    rw [items_of_stands hgap stands, length]
    by_cases far : 2 ≤ rest.length
    · have stands' : r.Stands (rest ++ more) := by
        rw [← List.append_nil rest] at stands
        exact stands.congr_behind (.inl far) fun none => by simp [none] at far
      rw [List.append_assoc, List.append_assoc, items_of_stands (stands.trivia hgap _) stands',
        List.filter_cons_of_pos (by simpa [stop] using far), List.cons_prefix_cons]
      exact ⟨rfl, ih _ _⟩
    · -- The items behind this one stop even later.
      have none : ∀ i ∈ items ⟨rest, position + (gap ++ r.lexeme).length,
          line + (gap ++ r.lexeme).count '\n'⟩,
          ¬i.stop + 2 ≤ position + (gap ++ r.lexeme).length + rest.length := by
        intro i mem
        have late := stop_gt_of_mem_items mem
        omega
      rw [List.filter_cons_of_neg (by simpa [stop] using far),
        List.filter_eq_nil_iff.2 (by simpa using none)]
      exact List.nil_prefix

end Cursor

/-- Appending to a script changes nothing that its scan found two characters before the end: each of
those tokens and errors is found at the same place again, on the same line, and they come first. -/
theorem spans_append (s t filename : String) :
    Span.Account (.text s) filename ((Source.text s).spans filename) ∧
    Span.Account (.text (s ++ t)) filename ((Source.text (s ++ t)).spans filename) ∧
    ((Source.text s).spans filename).filter (fun span => span.stop + 2 ≤ s.length) <+:
      (Source.text (s ++ t)).spans filename := by
  refine ⟨Source.account_spans _ _, Source.account_spans _ _, ?_⟩
  have settled := Cursor.filter_items_isPrefix s.toList t.toList 0 1
  rw [Nat.zero_add, String.length_toList, ← String.toList_append] at settled
  rw [Source.spans, List.filter_map]
  exact settled.map (Item.span filename)

end ScriptFront
