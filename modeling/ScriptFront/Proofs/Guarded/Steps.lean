import ScriptFront.Proofs.Stretch
import ScriptFront.Proofs.Trivia
import ScriptFront.Scan

/-!
# Guarded steps

Going over a text by the numbers of its characters, where a number that is not one of the text ends
everything for good. Each step looks before it takes a character, so none of them fails. A place is
known by what is left of the text from there on, and that says which place is reached.
-/
namespace ScriptFront.Guarded

/-- What ends a guarded scan for good. -/
inductive Failure
  /-- The text has no character of that number. -/
  | outside
  /-- A lexeme is no numeral. -/
  | numeral (e : NumberError)
  /-- An error cannot be made. -/
  | report (e : ScanError.NotOneCharacter)
deriving DecidableEq, Repr

theorem ok_bind {α β : Type} (a : α) (f : α → Except Failure β) : (Except.ok a >>= f) = f a := rfl

/-- How many characters stand before a place, and its line. -/
structure Place where
  position : Nat
  line : Int
deriving DecidableEq, Repr

def Place.behind (p : Place) (x : Char) : Place :=
  ⟨p.position + 1, if x = '\n' then p.line + 1 else p.line⟩

/-- The place behind a head of the text. -/
def Place.past (p : Place) (head : List Char) : Place :=
  ⟨p.position + head.length, p.line + head.count '\n'⟩

section Steps

variable (text : List Char)

/-- The character of a number, which has to be one of the text. -/
def charAt (n : Nat) : Except Failure Char :=
  match text[n]? with
  | some x => .ok x
  | none => .error .outside

/-- The character of a number, or what is seen behind the last one. -/
def seen (n : Nat) : Except Failure Char :=
  if n < text.length then charAt text n else .ok Scan.absent

def advance (p : Place) : Except Failure Place :=
  if p.position < text.length then do
    let x ← charAt text p.position
    return p.behind x
  else return p

/-- The place behind all next characters that pass a test. -/
def passWhile (test : Char → Bool) (p : Place) : Except Failure Place :=
  if p.position < text.length then do
    let x ← charAt text p.position
    if test x then passWhile test (p.behind x) else return p
  else return p
termination_by text.length - p.position
decreasing_by
  simp only [Place.behind]
  omega

/-- Whether two slashes begin a comment at a place, where `x` stands. -/
def beginsComment (x : Char) (p : Place) : Except Failure Bool :=
  if x = '/' then do
    let y ← seen text (p.position + 1)
    return y == '/'
  else return false

end Steps

variable {text : List Char} {p : Place}

theorem lt_of_drop {x : Char} {rest : List Char} {n : Nat} (here : text.drop n = x :: rest) :
    n < text.length := by
  rw [← Nat.not_le, ← List.drop_eq_nil_iff, here]
  simp

theorem le_of_drop {n : Nat} (here : text.drop n = []) : text.length ≤ n :=
  List.drop_eq_nil_iff.1 here

theorem charAt_of_drop {x : Char} {rest : List Char} {n : Nat} (here : text.drop n = x :: rest) :
    charAt text n = .ok x := by
  have found : text[n]? = some x := by
    rw [← List.head?_drop, here]
    rfl
  rw [charAt, found]

theorem seen_of_drop {rest : List Char} {n : Nat} (here : text.drop n = rest) :
    seen text n = .ok (rest.head?.getD Scan.absent) := by
  cases rest with
  | nil => rw [seen, if_neg (Nat.not_lt.2 (le_of_drop here))]; rfl
  | cons x rest => rw [seen, if_pos (lt_of_drop here), charAt_of_drop here]; rfl

theorem Place.behind_eq_past (p : Place) (x : Char) : p.behind x = p.past [x] := by
  by_cases newline : x = '\n' <;> simp [behind, past, newline]

theorem Place.past_append (p : Place) (a b : List Char) : p.past (a ++ b) = (p.past a).past b := by
  simp only [past, List.length_append, List.count_append, Nat.add_assoc, Int.natCast_add,
    Int.add_assoc]

theorem Place.past_nil (p : Place) : p.past [] = p := by simp [past]

theorem drop_past {head rest : List Char} (here : text.drop p.position = head ++ rest) :
    text.drop (p.past head).position = rest :=
  drop_of_drop here

theorem drop_past_singleton {x : Char} {rest : List Char} (here : text.drop p.position = x :: rest) :
    text.drop (p.past [x]).position = rest := by
  rw [← List.singleton_append] at here
  exact drop_past here

theorem advance_of_drop {x : Char} {rest : List Char} (here : text.drop p.position = x :: rest) :
    advance text p = .ok (p.past [x]) := by
  rw [advance, if_pos (lt_of_drop here), charAt_of_drop here, ← p.behind_eq_past]
  rfl

/-- Characters that pass the test are passed, up to one that does not. -/
theorem passWhile_of_drop {test : Char → Bool} {head rest : List Char}
    (here : text.drop p.position = head ++ rest) (inside : ∀ x ∈ head, test x = true)
    (stops : ∀ x ∈ rest.head?, test x = false) : passWhile text test p = .ok (p.past head) := by
  induction head generalizing p with
  | nil =>
    rw [List.nil_append] at here
    rw [passWhile, p.past_nil]
    cases rest with
    | nil => rw [if_neg (Nat.not_lt.2 (le_of_drop here))]; rfl
    | cons x rest =>
      rw [if_pos (lt_of_drop here), charAt_of_drop here, ok_bind, stops x rfl]
      rfl
  | cons x head ih =>
    obtain ⟨hx, inside⟩ := List.forall_mem_cons.1 inside
    have next : text.drop (p.behind x).position = head ++ rest :=
      drop_past_singleton here
    rw [passWhile, if_pos (lt_of_drop here), charAt_of_drop here, ok_bind, if_pos hx,
      ih next inside, ← List.singleton_append, p.past_append, p.behind_eq_past]

theorem position_passWhile {test : Char → Bool} {q : Place} (h : passWhile text test p = .ok q) :
    p.position ≤ q.position := by
  induction p using passWhile.induct text with
  | case1 p inside ih =>
    rw [passWhile, if_pos inside] at h
    cases found : charAt text p.position with
    | error e =>
      rw [found] at h
      cases h
    | ok x =>
      rw [found, ok_bind] at h
      split at h
      · have further := ih x h
        simp only [Place.behind] at further
        omega
      · cases h
        exact Nat.le_refl _
  | case2 p outside =>
    rw [passWhile, if_neg outside] at h
    cases h
    exact Nat.le_refl _

def skip (text : List Char) (p : Place) : Except Failure Place :=
  if p.position < text.length then do
    let x ← charAt text p.position
    if isBlank x then skip text (p.behind x)
    else if ← beginsComment text x p then
      match _ : passWhile text (· != '\n') (p.behind x) with
      | .ok q => skip text q
      | .error e => .error e
    else return p
  else return p
termination_by text.length - p.position
decreasing_by
  · simp only [Place.behind]
    omega
  · rename_i passed
    have further := position_passWhile passed
    simp only [Place.behind] at further
    omega

theorem beginsComment_of_drop {x : Char} {rest : List Char}
    (here : text.drop p.position = x :: rest) :
    beginsComment text x p = .ok (decide (x = '/' ∧ rest.head? = some '/')) := by
  have next : text.drop (p.position + 1) = rest := drop_past_singleton here
  by_cases slash : x = '/'
  · rw [beginsComment, if_pos slash, seen_of_drop next]
    cases rest with
    | nil => simp [slash, bind, Except.bind, Scan.absent]; rfl
    | cons y rest => simp [slash, bind, Except.bind, Bool.beq_eq_decide_eq]; rfl
  · rw [beginsComment, if_neg slash]
    simp [slash]
    rfl

theorem skip_of_stop {rest : List Char} (here : text.drop p.position = rest)
    (stop : Cursor.triviaLength false rest = 0) : skip text p = .ok p := by
  cases rest with
  | nil => rw [skip, if_neg (Nat.not_lt.2 (le_of_drop here))]; rfl
  | cons x rest =>
    obtain ⟨noBlank, noComment⟩ := Cursor.triviaLength_cons_eq_zero.1 stop
    rw [skip, if_pos (lt_of_drop here), charAt_of_drop here, ok_bind, if_neg (by simp [noBlank]),
      beginsComment_of_drop here, ok_bind, if_neg (by simpa using noComment)]
    rfl

theorem skip_of_trivia {gap rest : List Char} (trivia : Trivia gap rest)
    (stop : Cursor.triviaLength false rest = 0) (here : text.drop p.position = gap ++ rest) :
    skip text p = .ok (p.past gap) := by
  induction trivia generalizing p with
  | none =>
    rw [p.past_nil]
    exact skip_of_stop here stop
  | @blank x gap rest blank _ ih =>
    have next : text.drop (p.behind x).position = gap ++ rest :=
      drop_past_singleton here
    rw [skip, if_pos (lt_of_drop here), charAt_of_drop here, ok_bind,
      if_pos ((Cursor.isBlank_iff x).2 blank), ih stop next, ← List.singleton_append,
      p.past_append, p.behind_eq_past]
  | @comment body gap rest oneLine ends _ ih =>
    have here' : text.drop p.position = '/' :: ('/' :: body ++ (gap ++ rest)) := by
      simpa using here
    have next : text.drop (p.behind '/').position = '/' :: body ++ (gap ++ rest) :=
      drop_past_singleton here'
    have inside : ∀ x ∈ '/' :: body, (x != '\n') = true := by
      refine List.forall_mem_cons.2 ⟨by decide, fun x mem => ?_⟩
      simpa using fun h : x = '\n' => oneLine (h ▸ mem)
    have stops : ∀ x ∈ (gap ++ rest).head?, (x != '\n') = false := by
      intro x mem
      simpa using ends x mem
    have passed := passWhile_of_drop next inside stops
    have split : p.past ('/' :: '/' :: (body ++ gap)) =
        ((p.behind '/').past ('/' :: body)).past gap := by
      rw [p.behind_eq_past, ← p.past_append, ← p.past_append]
      simp
    rw [skip, if_pos (lt_of_drop here'), charAt_of_drop here', ok_bind, if_neg (by decide),
      beginsComment_of_drop here', ok_bind, if_pos (by simp), passed, split]
    exact ih stop (drop_past next)

end ScriptFront.Guarded
