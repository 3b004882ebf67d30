/-!
# Stretches of a list

Where a list is cut and what lies between two cuts. A place is known by what is left of the list
from there on.
-/
namespace ScriptFront

variable {α : Type} {text head rest : List α} {start stop : Nat}

/-- A stretch and what is left behind it are what is left before it. -/
theorem extract_append_drop (h : start ≤ stop) :
    text.extract start stop ++ text.drop stop = text.drop start := by
  have behind : text.drop stop = (text.drop start).drop (stop - start) := by
    rw [List.drop_drop, Nat.add_sub_cancel' h]
  rw [behind]
  exact List.take_append_drop _ _

theorem length_extract_of_le (h : stop ≤ text.length) :
    (text.extract start stop).length = stop - start := by
  rw [List.extract_eq_take_drop, List.length_take, List.length_drop]
  omega

theorem extract_of_drop (here : text.drop start = head ++ rest) :
    text.extract start (start + head.length) = head := by
  rw [List.extract_eq_take_drop, here, Nat.add_sub_cancel_left, List.take_left]

theorem drop_of_drop (here : text.drop start = head ++ rest) :
    text.drop (start + head.length) = rest := by
  rw [← List.drop_drop, here, List.drop_left]

/-- What follows the end of a stretch does not change it. -/
theorem extract_take_append (h : stop ≤ text.length) (others : List α) :
    (text.take stop ++ others).extract start stop = text.extract start stop := by
  rw [List.extract_eq_take_drop, List.extract_eq_take_drop, ← List.drop_take, ← List.drop_take,
    List.take_left' (List.length_take_of_le h)]

/-- Two lists that are the same are cut at the same place by the first of some element. -/
theorem append_cons_inj {a : α} {xs ys zs ws : List α} (notMem : a ∉ xs) (notMem' : a ∉ ys)
    (same : xs ++ a :: zs = ys ++ a :: ws) : xs = ys ∧ zs = ws := by
  induction xs generalizing ys with
  | nil =>
    cases ys with
    | nil => exact ⟨rfl, (List.cons.inj same).2⟩
    | cons y ys =>
      obtain ⟨rfl, -⟩ := List.cons.inj same
      exact absurd List.mem_cons_self notMem'
  | cons x xs ih =>
    cases ys with
    | nil =>
      obtain ⟨rfl, -⟩ := List.cons.inj same
      exact absurd List.mem_cons_self notMem
    | cons y ys =>
      obtain ⟨rfl, behind⟩ := List.cons.inj same
      obtain ⟨rfl, rfl⟩ := ih (mt (List.mem_cons_of_mem _) notMem)
        (mt (List.mem_cons_of_mem _) notMem') behind
      exact ⟨rfl, rfl⟩

/-- What is left behind the head that passes a test begins with what does not. -/
theorem eq_false_of_head?_dropWhile {p : α → Bool} {x : α} (h : x ∈ (text.dropWhile p).head?) :
    p x = false := by
  have stopped := List.head?_dropWhile_not p text
  rwa [h] at stopped

end ScriptFront
