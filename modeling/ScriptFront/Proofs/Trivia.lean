import Mathlib.Data.List.TakeWhile
import ScriptFront.Source.Cursor

/-!
# Trivia

Blanks and comments as a language of their own. A comment reaches exactly to the next line feed or
to the end of the text, so whether a run of characters is trivia depends on what follows it.
Skipping takes the longest run there is.
-/
namespace ScriptFront

/-- A text that is over, or goes on with a line feed. -/
def EndsLine (cs : List Char) : Prop := ∀ x ∈ cs.head?, x = '\n'

/-- `Trivia gap rest`: in front of `rest`, the text `gap` is blanks and comments only. -/
inductive Trivia : List Char → List Char → Prop
  | none {rest : List Char} : Trivia [] rest
  | blank {x : Char} {gap rest : List Char} (blank : x ∈ [' ', '\t', '\r', '\n'])
      (more : Trivia gap rest) : Trivia (x :: gap) rest
  | comment {body gap rest : List Char} (oneLine : '\n' ∉ body) (ends : EndsLine (gap ++ rest))
      (more : Trivia gap rest) : Trivia ('/' :: '/' :: (body ++ gap)) rest

/-- The longest head of a text with a property that may depend on what follows. -/
structure Longest (P : List Char → List Char → Prop) (head rest : List Char) : Prop where
  holds : P head rest
  maximal : ∀ head' rest', head' ++ rest' = head ++ rest → P head' rest' →
    head'.length ≤ head.length

theorem Longest.unique {P : List Char → List Char → Prop} {head rest head' rest' : List Char}
    (h : Longest P head rest) (h' : Longest P head' rest') (same : head ++ rest = head' ++ rest') :
    head = head' ∧ rest = rest' := by
  have hle := h'.maximal head rest same h.holds
  have hge := h.maximal head' rest' same.symm h'.holds
  exact List.append_inj same (by omega)

@[simp] theorem endsLine_nil : EndsLine [] := by simp [EndsLine]

@[simp] theorem endsLine_cons (x : Char) (cs : List Char) : EndsLine (x :: cs) ↔ x = '\n' := by
  simp [EndsLine]

/-- Trivia stays trivia in front of another text that ends a line where the first one did. -/
theorem Trivia.congr_behind {gap rest rest' : List Char} (h : Trivia gap rest)
    (ends : EndsLine rest → EndsLine rest') : Trivia gap rest' := by
  induction h with
  | none => exact .none
  | blank hx _ ih => exact .blank hx (ih ends)
  | @comment body gap rest oneLine closed _ ih =>
    refine .comment oneLine ?_ (ih ends)
    cases gap with
    | nil => exact ends closed
    | cons x gap => simpa using closed

/-- One line and what ends it are found again in the text they make up. -/
theorem takeWhile_line {body rest : List Char} (oneLine : '\n' ∉ body) (ends : EndsLine rest) :
    (body ++ rest).takeWhile (· != '\n') = body ∧ (body ++ rest).dropWhile (· != '\n') = rest := by
  have inside : ∀ x ∈ body, (x != '\n') = true := by
    intro x hx
    simpa using fun h : x = '\n' => oneLine (h ▸ hx)
  rw [List.takeWhile_append_of_pos inside, List.dropWhile_append_of_pos inside]
  cases rest with
  | nil => simp
  | cons x rest =>
    obtain rfl := (endsLine_cons x rest).1 ends
    simp

theorem exists_line (cs : List Char) :
    ∃ body rest, cs = body ++ rest ∧ '\n' ∉ body ∧ EndsLine rest := by
  refine ⟨cs.takeWhile (· != '\n'), cs.dropWhile (· != '\n'),
    List.takeWhile_append_dropWhile.symm, ?_, ?_⟩
  · intro h
    simpa using List.mem_takeWhile_imp h
  · intro x hx
    have stopped := List.head?_dropWhile_not (· != '\n') cs
    rw [hx] at stopped
    simpa using stopped

namespace Cursor

theorem isBlank_iff (x : Char) : isBlank x = true ↔ x ∈ [' ', '\t', '\r', '\n'] := by
  simp [isBlank, or_assoc]

theorem triviaLength_blank {x : Char} (h : isBlank x = true) (cs : List Char) :
    triviaLength false (x :: cs) = triviaLength false cs + 1 := by
  simp [triviaLength, h]

/-- Inside a comment the rest of the line is passed first. -/
theorem triviaLength_inComment {body rest : List Char} (oneLine : '\n' ∉ body)
    (ends : EndsLine rest) :
    triviaLength true (body ++ rest) = body.length + triviaLength false rest := by
  induction body with
  | nil =>
    cases rest with
    | nil => rfl
    | cons x rest =>
      obtain rfl := (endsLine_cons x rest).1 ends
      simp [triviaLength, isBlank]
  | cons x body ih =>
    obtain ⟨hx, hbody⟩ := not_or.1 (List.mem_cons.not.1 oneLine)
    have step : triviaLength true (x :: (body ++ rest)) = triviaLength true (body ++ rest) + 1 := by
      rw [triviaLength, show (x != '\n') = true by simpa using Ne.symm hx]
    rw [List.cons_append, step, ih hbody, List.length_cons]
    omega

theorem triviaLength_comment {body rest : List Char} (oneLine : '\n' ∉ body)
    (ends : EndsLine rest) :
    triviaLength false ('/' :: '/' :: (body ++ rest)) =
      body.length + 2 + triviaLength false rest := by
  have line : '\n' ∉ '/' :: body := by simpa using oneLine
  have step : triviaLength false ('/' :: '/' :: (body ++ rest)) =
      triviaLength true (('/' :: body) ++ rest) + 1 := by simp [triviaLength, isBlank]
  rw [step, triviaLength_inComment line ends, List.length_cons]
  omega

/-- Trivia at the head of a text is skipped, and then what is trivia behind it. -/
theorem triviaLength_append {gap rest : List Char} (h : Trivia gap rest) :
    triviaLength false (gap ++ rest) = gap.length + triviaLength false rest := by
  induction h with
  | none => simp
  | blank hx _ ih =>
    rw [List.cons_append, triviaLength_blank ((isBlank_iff _).2 hx), ih, List.length_cons]
    omega
  | comment oneLine ends _ ih =>
    rw [List.cons_append, List.cons_append, List.append_assoc, triviaLength_comment oneLine ends,
      ih]
    simp only [List.length_cons, List.length_append]
    omega

theorem trivia_skipped (cs : List Char) :
    Trivia (cs.take (triviaLength false cs)) (cs.drop (triviaLength false cs)) := by
  induction h : cs.length using Nat.strongRecOn generalizing cs with
  | _ n ih =>
    subst h
    cases cs with
    | nil => exact .none
    | cons x cs =>
      by_cases hx : isBlank x = true
      · rw [triviaLength_blank hx]
        exact .blank ((isBlank_iff x).1 hx) (ih _ (by simp) cs rfl)
      by_cases slashes : x = '/' ∧ cs.head? = some '/'
      · obtain ⟨rfl, hcs⟩ := slashes
        obtain ⟨cs, rfl⟩ := List.head?_eq_some_iff.1 hcs
        obtain ⟨body, rest, rfl, oneLine, ends⟩ := exists_line cs
        have skipped := ih rest.length (by simp; omega) rest rfl
        rw [triviaLength_comment oneLine ends, show ∀ n, body.length + 2 + n = (body.length + n) + 2
          by omega]
        simp only [List.take_succ_cons, List.drop_succ_cons, List.take_length_add_append,
          List.drop_length_add_append]
        exact .comment oneLine (by rwa [List.take_append_drop]) skipped
      · have : triviaLength false (x :: cs) = 0 := by simp [triviaLength, hx, slashes]
        rw [this]
        exact .none

/-- Where nothing is skipped there is no blank, and no comment begins. -/
theorem triviaLength_cons_eq_zero {x : Char} {cs : List Char} :
    triviaLength false (x :: cs) = 0 ↔ isBlank x = false ∧ ¬(x = '/' ∧ cs.head? = some '/') := by
  simp only [triviaLength]
  split_ifs with hx slashes <;> simp_all

theorem triviaLength_skipped (cs : List Char) :
    triviaLength false (cs.drop (triviaLength false cs)) = 0 := by
  have h := triviaLength_append (trivia_skipped cs)
  rw [List.take_append_drop, List.length_take, Nat.min_eq_left (triviaLength_le false cs)] at h
  omega

/-- Trivia that nothing more can be skipped behind is the longest there is. -/
theorem longest_trivia {gap rest : List Char} (h : Trivia gap rest)
    (stop : triviaLength false rest = 0) : Longest Trivia gap rest where
  holds := h
  maximal gap' rest' same h' := by
    have taken := triviaLength_append h'
    rw [same, triviaLength_append h] at taken
    omega

end Cursor
end ScriptFront
