import Mathlib.Algebra.Group.Nat.Defs
import Mathlib.Tactic.SplitIfs
import ScriptFront.Scan

/-!
# Texts as bytes

A text that is handed over as its bytes in UTF-8 is read as the text it is. The first byte of a
character tells how many more there are, each of them brings six bits, and no character of the text
is refused at any byte, since what is refused is written by no character. Whatever the bytes are,
one below 0x80 stands for itself, and no other byte stands for a line feed.
-/
namespace ScriptFront

namespace Text.Utf8

section Lead

variable {x : Nat}

theorem lead_ascii (h : x < 0x80) : lead x = ([Char.ofNat x], .boundary) := if_pos h

theorem lead_two (least : 2 ≤ x) (h : x < 0x20) :
    lead (x + 0xC0) = ([], .inside 0 x 0x80 0xBF) := by
  have value : (x + 0xC0) % 0x20 = x := by omega
  rw [lead, if_neg (by omega), if_neg (by omega), if_pos (by omega), value]

theorem lead_three (h : x < 0x10) :
    lead (x + 0xE0) =
      ([], .inside 1 x (if x = 0 then 0xA0 else 0x80) (if x = 13 then 0x9F else 0xBF)) := by
  have value : (x + 0xE0) % 0x10 = x := by omega
  rw [lead, if_neg (by omega), if_neg (by omega), if_neg (by omega), if_pos (by omega), value]
  simp

theorem lead_four (h : x ≤ 4) :
    lead (x + 0xF0) =
      ([], .inside 2 x (if x = 0 then 0x90 else 0x80) (if x = 4 then 0x8F else 0xBF)) := by
  have value : (x + 0xF0) % 0x8 = x := by omega
  rw [lead, if_neg (by omega), if_neg (by omega), if_neg (by omega), if_neg (by omega),
    if_pos (by omega), value]
  simp

end Lead

/-- `Awaits state tail c`: in that state the bytes `tail` complete the character `c`. Each of them
brings six bits. -/
inductive Awaits : State → List UInt8 → Char → Prop
  | last {bits low high : Nat} {byte : UInt8} {c : Char}
      (expected : low ≤ byte.toNat ∧ byte.toNat ≤ high)
      (whole : Char.ofNat (bits * 0x40 + byte.toNat % 0x40) = c) :
      Awaits (.inside 0 bits low high) [byte] c
  | more {more bits low high : Nat} {byte : UInt8} {tail : List UInt8} {c : Char}
      (expected : low ≤ byte.toNat ∧ byte.toNat ≤ high)
      (rest : Awaits (.inside more (bits * 0x40 + byte.toNat % 0x40) 0x80 0xBF) tail c) :
      Awaits (.inside (more + 1) bits low high) (byte :: tail) c

/-- What is awaited is read as the character that it completes. -/
theorem decodeFrom_awaits {state : State} {tail : List UInt8} {c : Char}
    (h : Awaits state tail c) (bytes : List UInt8) :
    decodeFrom state [] (tail ++ bytes) = c :: decodeFrom .boundary [] bytes := by
  induction h with
  | last expected whole =>
    rw [List.singleton_append, decodeFrom_cons, step_last expected, whole, List.singleton_append]
  | more expected _ ih =>
    rw [List.cons_append, decodeFrom_cons, step_more expected, ih, List.nil_append]

/-- The first byte of a character is the whole of it, or leads to a state that awaits the others. -/
theorem lead_of_utf8EncodeChar {c : Char} {byte : UInt8} {tail : List UInt8}
    (h : String.utf8EncodeChar c = byte :: tail) :
    (tail = [] ∧ lead byte.toNat = ([c], .boundary)) ∨
      ∃ state, lead byte.toNat = ([], state) ∧ Awaits state tail c := by
  have valid : c.toNat < 0xD800 ∨ 0xDFFF < c.toNat ∧ c.toNat < 0x110000 := c.valid
  have whole : ∀ n, n = c.toNat → Char.ofNat n = c := by
    rintro n rfl
    exact Char.ofNat_toNat c
  have value : ∀ {n}, n < 0x100 → (UInt8.ofNat n).toNat = n := UInt8.toNat_ofNat_of_lt'
  simp only [String.utf8EncodeChar, show c.val.toNat = c.toNat from rfl] at h
  split_ifs at h with one two three <;> cases h
  · rw [value (by omega), lead_ascii (by omega), whole _ rfl]
    exact .inl ⟨rfl, rfl⟩
  · rw [value (by omega), lead_two (by omega) (by omega)]
    refine .inr ⟨_, rfl, .last ?_ (whole _ ?_)⟩ <;> rw [value (by omega)] <;> omega
  · rw [value (by omega), lead_three (by omega)]
    refine .inr ⟨_, rfl, .more ?_ (.last ?_ (whole _ ?_))⟩
    · rw [value (by omega)]
      constructor <;> split_ifs <;> omega
    · rw [value (by omega)]
      omega
    · rw [value (by omega), value (by omega)]
      omega
  · rw [value (by omega), lead_four (by omega)]
    refine .inr ⟨_, rfl, .more ?_ (.more ?_ (.last ?_ (whole _ ?_)))⟩
    · rw [value (by omega)]
      constructor <;> split_ifs <;> omega
    · rw [value (by omega)]
      omega
    · rw [value (by omega)]
      omega
    · rw [value (by omega), value (by omega), value (by omega)]
      omega

theorem decodeFrom_utf8EncodeChar (c : Char) (bytes : List UInt8) :
    decodeFrom .boundary [] (String.utf8EncodeChar c ++ bytes) =
      c :: decodeFrom .boundary [] bytes := by
  obtain ⟨byte, tail, text⟩ := List.exists_cons_of_ne_nil (String.utf8EncodeChar_ne_nil (c := c))
  rw [text, List.cons_append, decodeFrom_cons, step]
  rcases lead_of_utf8EncodeChar text with ⟨rfl, alone⟩ | ⟨state, first, awaits⟩
  · rw [alone]
    rfl
  · rw [first, decodeFrom_awaits awaits, List.nil_append]

theorem decode_utf8Encode (s : String) : decode s.toUTF8.data.toList = s.toList := by
  have bytes : s.toUTF8.data.toList = s.toList.flatMap String.utf8EncodeChar := by
    rw [String.toUTF8_eq_toByteArray, ← String.utf8Encode_toList, List.utf8Encode,
      List.toList_data_toByteArray]
  rw [bytes, decode]
  induction s.toList with
  | nil => rfl
  | cons c cs ih => rw [List.flatMap_cons, decodeFrom_utf8EncodeChar, ih]

/-- A byte order mark is read as a character of the text. -/
example : decode [0xEF, 0xBB, 0xBF, 0x61] = ['\ufeff', 'a'] := by decide

/-- The states that a reader gets into: inside a character no byte below 0x80 is expected, and what
comes of the character is no character below that either. -/
def State.Sound : State → Prop
  | .boundary => True
  | .inside more bits low high =>
    0x80 ≤ low ∧ high ≤ 0xBF ∧ 0x80 ≤ (bits * 0x40 + low % 0x40) * 0x40 ^ more

theorem sound_lead (byte : Nat) : (lead byte).2.Sound := by
  unfold lead
  split_ifs <;> simp only [State.Sound] <;> omega

theorem sound_step {state : State} (sound : state.Sound) (byte : Nat) :
    (step byte state).2.Sound := by
  cases state with
  | boundary => exact sound_lead byte
  | inside more bits low high =>
    obtain ⟨least, most, large⟩ := sound
    by_cases expected : low ≤ byte ∧ byte ≤ high
    · cases more with
      | zero =>
        rw [step_last expected]
        trivial
      | succ more =>
        rw [step_more expected]
        refine ⟨Nat.le_refl _, Nat.le_refl _, Nat.le_trans large ?_⟩
        have grows : bits * 0x40 + low % 0x40 ≤ bits * 0x40 + byte % 0x40 := by omega
        calc (bits * 0x40 + low % 0x40) * 0x40 ^ (more + 1)
            ≤ (bits * 0x40 + byte % 0x40) * 0x40 ^ (more + 1) := Nat.mul_le_mul_right _ grows
          _ = ((bits * 0x40 + byte % 0x40) * 0x40 + 0x80 % 0x40) * 0x40 ^ more := by
              rw [Nat.pow_succ, Nat.mul_comm (0x40 ^ more), ← Nat.mul_assoc, Nat.add_zero]
    · rw [step_refused expected]
      exact sound_lead byte

/-- A byte below 0x80 stands for itself in every state. A character that it cuts short is replaced. -/
theorem step_ascii {state : State} (sound : state.Sound) {byte : Nat} (ascii : byte < 0x80) :
    step byte state = (finish state ++ [Char.ofNat byte], .boundary) := by
  cases state with
  | boundary => exact lead_ascii ascii
  | inside more bits low high =>
    have least := sound.1
    rw [step_refused (by omega), lead_ascii ascii]
    rfl

theorem decodeFrom_ascii {state : State} (sound : state.Sound) {byte : UInt8}
    (ascii : byte.toNat < 0x80) (bytes : List UInt8) :
    decodeFrom state [] (byte :: bytes) =
      finish state ++ Char.ofNat byte.toNat :: decodeFrom .boundary [] bytes := by
  rw [decodeFrom_cons, step_ascii sound ascii, List.append_assoc]
  rfl

theorem ofNat_ne_newline {n : Nat} (h : n ≠ 0x0A) : Char.ofNat n ≠ '\n' := by
  by_cases valid : n.isValidChar
  · rw [Char.ofNat, dif_pos valid]
    exact fun same => h (congrArg Char.toNat same)
  · rw [Char.ofNat, dif_neg valid]
    decide

theorem newline_not_mem_step {state : State} (sound : state.Sound) {byte : Nat}
    (other : byte ≠ 0x0A) : '\n' ∉ (step byte state).1 := by
  have noLead : '\n' ∉ (lead byte).1 := by
    unfold lead
    split_ifs <;> simp [replacement, (ofNat_ne_newline other).symm]
  cases state with
  | boundary => exact noLead
  | inside more bits low high =>
    by_cases expected : low ≤ byte ∧ byte ≤ high
    · cases more with
      | zero =>
        obtain ⟨least, most, large⟩ := sound
        rw [step_last expected, List.mem_singleton]
        exact (ofNat_ne_newline (by omega)).symm
      | succ more =>
        rw [step_more expected]
        exact List.not_mem_nil
    · rw [step_refused expected]
      exact List.not_mem_cons_of_ne_of_not_mem (by decide) noLead

end Text.Utf8

/-- A script that is handed over as the bytes of a text is scanned as that text. -/
theorem scan_utf8 (s filename : String) :
    Text.Utf8.decode s.toUTF8.data.toList = s.toList ∧
    scan (.bytes s.toUTF8.data.toList) filename = scan (.text s) filename := by
  have chars : (Source.bytes s.toUTF8.data.toList).chars = (Source.text s).chars :=
    Text.Utf8.decode_utf8Encode s
  refine ⟨chars, ?_⟩
  simp only [scan, Scan.ofSource, chars]

end ScriptFront
