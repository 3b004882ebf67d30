import ScriptFront.Token.Mark

/-!
# Places in a text

A cursor is a place in a text: the characters from there on, how many stand before it and the line
it is on. It only moves forward, one character at a time, and every line feed it passes begins a
new line. Blanks and comments are passed without a trace.
-/
namespace ScriptFront

structure Cursor where
  rest : List Char
  position : Nat
  line : Int
deriving DecidableEq, Repr

namespace Cursor

/-- The start of a text: nothing before it, on line one. -/
def start (cs : List Char) : Cursor := ⟨cs, 0, 1⟩

/-- The place behind the next character; the end of the text stays where it is. -/
def advance (c : Cursor) : Cursor :=
  match c.rest with
  | [] => c
  | x :: rest => ⟨rest, c.position + 1, if x = '\n' then c.line + 1 else c.line⟩

def forward (c : Cursor) : Nat → Cursor
  | 0 => c
  | n + 1 => c.advance.forward n

/-- The length of the blanks and comments at the head of a text. A comment runs from two slashes
up to a line feed or the end; the flag says that one has begun. -/
def triviaLength : (inComment : Bool) → List Char → Nat
  | _, [] => 0
  | true, x :: rest => triviaLength (x != '\n') rest + 1
  | false, x :: rest =>
    if isBlank x then triviaLength false rest + 1
    else if x = '/' ∧ rest.head? = some '/' then triviaLength true rest + 1
    else 0

def skipTrivia (c : Cursor) : Cursor := c.forward (triviaLength false c.rest)

@[simp] theorem rest_advance (c : Cursor) : c.advance.rest = c.rest.tail := by
  unfold advance
  split <;> simp_all

@[simp] theorem rest_forward (c : Cursor) (n : Nat) : (c.forward n).rest = c.rest.drop n := by
  induction n generalizing c with
  | zero => simp [forward]
  | succ n ih => simp [forward, ih]

/-- Going forward passes as many characters as there are, and no more. -/
theorem position_forward (c : Cursor) (n : Nat) :
    (c.forward n).position = c.position + (c.rest.take n).length := by
  induction n generalizing c with
  | zero => simp [forward]
  | succ n ih =>
    rw [forward, ih, rest_advance]
    unfold advance
    split
    · simp_all
    · simp_all
      omega

/-- Every line feed that is passed begins a new line, and nothing else does. -/
theorem line_forward (c : Cursor) (n : Nat) :
    (c.forward n).line = c.line + (c.rest.take n).count '\n' := by
  induction n generalizing c with
  | zero => simp [forward]
  | succ n ih =>
    rw [forward, ih, rest_advance]
    unfold advance
    split
    · simp_all
    · rename_i x rest h
      by_cases hx : x = '\n'
      · simp [h, hx]
        omega
      · simp [h, hx]

@[simp] theorem rest_skipTrivia (c : Cursor) :
    c.skipTrivia.rest = c.rest.drop (triviaLength false c.rest) := by
  simp [skipTrivia]

theorem triviaLength_le (inComment : Bool) (cs : List Char) :
    triviaLength inComment cs ≤ cs.length := by
  fun_induction triviaLength inComment cs <;> simp_all

end Cursor
end ScriptFront
