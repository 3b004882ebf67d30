/-!
# UTF-8 with replacement

Bytes are read one at a time. Between two characters the reader is at a boundary; inside a
character it knows how many continuation bytes are to come, the bits gathered so far and which
bytes may follow, so overlong forms, surrogates and values past U+10FFFF are refused at the first
byte that makes them certain. A refused byte ends the character before it, which becomes one
U+FFFD, and is then read afresh; so each maximal invalid part becomes one U+FFFD.
-/
namespace ScriptFront.Text.Utf8

/-- What replaces an invalid part. -/
def replacement : Char := '\ufffd'

inductive State
  /-- Between two characters. -/
  | boundary
  /-- Inside a character that still wants `more + 1` bytes, the next between `low` and `high`. -/
  | inside (more bits low high : Nat)
deriving DecidableEq, Repr

/-- Reading a byte at a boundary: the characters it completes, and the state after it. -/
def lead (byte : Nat) : List Char × State :=
  if byte < 0x80 then ([Char.ofNat byte], .boundary)
  else if byte < 0xC2 then ([replacement], .boundary)
  else if byte < 0xE0 then ([], .inside 0 (byte % 0x20) 0x80 0xBF)
  else if byte < 0xF0 then
    ([], .inside 1 (byte % 0x10) (if byte = 0xE0 then 0xA0 else 0x80)
      (if byte = 0xED then 0x9F else 0xBF))
  else if byte < 0xF5 then
    ([], .inside 2 (byte % 0x08) (if byte = 0xF0 then 0x90 else 0x80)
      (if byte = 0xF4 then 0x8F else 0xBF))
  else ([replacement], .boundary)

def step (byte : Nat) : State → List Char × State
  | .boundary => lead byte
  | .inside more bits low high =>
    if low ≤ byte ∧ byte ≤ high then
      let bits := bits * 0x40 + byte % 0x40
      match more with
      | 0 => ([Char.ofNat bits], .boundary)
      | more + 1 => ([], .inside more bits 0x80 0xBF)
    else
      let (chars, state) := lead byte
      (replacement :: chars, state)

/-- What the end of the bytes adds: a character cut short is one invalid part. -/
def finish : State → List Char
  | .boundary => []
  | .inside .. => [replacement]

/-- The characters of the bytes from a state on, in front of which stand `done`, last one first. -/
def decodeFrom (state : State) (done : List Char) : List UInt8 → List Char
  | [] => done.reverse ++ finish state
  | byte :: bytes =>
    let (chars, state) := step byte.toNat state
    decodeFrom state (chars.reverse ++ done) bytes

/-- The characters of a byte string. A byte order mark is a character like any other. -/
def decode (bytes : List UInt8) : List Char := decodeFrom .boundary [] bytes

section Step

variable {byte more bits low high : Nat}

theorem step_last (expected : low ≤ byte ∧ byte ≤ high) :
    step byte (.inside 0 bits low high) =
      ([Char.ofNat (bits * 0x40 + byte % 0x40)], .boundary) := by
  rw [step, if_pos expected]

theorem step_more (expected : low ≤ byte ∧ byte ≤ high) :
    step byte (.inside (more + 1) bits low high) =
      ([], .inside more (bits * 0x40 + byte % 0x40) 0x80 0xBF) := by
  rw [step, if_pos expected]

theorem step_refused (refused : ¬(low ≤ byte ∧ byte ≤ high)) :
    step byte (.inside more bits low high) = (replacement :: (lead byte).1, (lead byte).2) := by
  rw [step, if_neg refused]

end Step

/-- What was read before only stands in front. -/
theorem decodeFrom_eq (state : State) (done : List Char) (bytes : List UInt8) :
    decodeFrom state done bytes = done.reverse ++ decodeFrom state [] bytes := by
  induction bytes generalizing state done with
  | nil => simp [decodeFrom]
  | cons byte bytes ih =>
    simp only [decodeFrom]
    rw [ih, ih _ (_ ++ [])]
    simp

theorem decodeFrom_cons (state : State) (byte : UInt8) (bytes : List UInt8) :
    decodeFrom state [] (byte :: bytes) =
      (step byte.toNat state).1 ++ decodeFrom (step byte.toNat state).2 [] bytes := by
  simp only [decodeFrom, List.append_nil]
  rw [decodeFrom_eq, List.reverse_reverse]

end ScriptFront.Text.Utf8
