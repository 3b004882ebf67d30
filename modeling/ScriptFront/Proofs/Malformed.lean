import Mathlib.Data.Nat.Find
import ScriptFront.Proofs.Encoding
import ScriptFront.Proofs.Lines

/-!
# Malformed bytes

Bytes that are no text are read too: where no character stands, one U+FFFD replaces the longest part
that a character could begin with. No such part goes over a byte below 0x80. So that byte keeps
apart what is in front of it and what is behind it, and a line feed does so for the whole scan.
-/
namespace ScriptFront

namespace Text.Utf8

/-- `Subpart part`: the bytes `part` are one byte, or a character begins with them. -/
inductive Subpart : List UInt8 → Prop
  | single (byte : UInt8) : Subpart [byte]
  | head {part : List UInt8} {c : Char} (notEmpty : part ≠ [])
      (starts : part <+: String.utf8EncodeChar c) : Subpart part

/-- `LongestSubpart part rest`: of the bytes `part ++ rest` no longer head is a subpart. -/
structure LongestSubpart (part rest : List UInt8) : Prop where
  subpart : Subpart part
  longest : ∀ part', Subpart part' → part' <+: part ++ rest → part'.length ≤ part.length

/-- `Decoded bytes cs`: the bytes are those of the characters `cs`, but for the parts that are
replaced. Where no character stands the longest subpart is replaced. -/
inductive Decoded : List UInt8 → List Char → Prop
  | nil : Decoded [] []
  | char (c : Char) {bytes : List UInt8} {cs : List Char} (more : Decoded bytes cs) :
      Decoded (String.utf8EncodeChar c ++ bytes) (c :: cs)
  | replaced {part bytes : List UInt8} {cs : List Char}
      (noChar : ∀ c, ¬String.utf8EncodeChar c <+: part ++ bytes)
      (maximal : LongestSubpart part bytes) (more : Decoded bytes cs) :
      Decoded (part ++ bytes) (replacement :: cs)

/-- What a byte between two characters can be: a character of its own, no part of any, or the first
byte of two, three or four. -/
inductive Leads (byte : Nat) : List Char × State → Prop
  | ascii (h : byte < 0x80) : Leads byte ([Char.ofNat byte], .boundary)
  | refused (h : 0x80 ≤ byte) : Leads byte ([replacement], .boundary)
  | two {x : Nat} (least : 2 ≤ x) (bound : x < 0x20) (h : byte = x + 0xC0) :
      Leads byte ([], .inside 0 x 0x80 0xBF)
  | three {x : Nat} (bound : x < 0x10) (h : byte = x + 0xE0) :
      Leads byte ([], .inside 1 x (if x = 0 then 0xA0 else 0x80) (if x = 13 then 0x9F else 0xBF))
  | four {x : Nat} (bound : x ≤ 4) (h : byte = x + 0xF0) :
      Leads byte ([], .inside 2 x (if x = 0 then 0x90 else 0x80) (if x = 4 then 0x8F else 0xBF))

theorem leads_lead (byte : Nat) : Leads byte (lead byte) := by
  by_cases two : 0xC2 ≤ byte ∧ byte < 0xE0
  · obtain ⟨x, rfl⟩ : ∃ x, byte = x + 0xC0 := ⟨byte - 0xC0, by omega⟩
    rw [lead_two (by omega) (by omega)]
    exact .two (by omega) (by omega) rfl
  by_cases three : 0xE0 ≤ byte ∧ byte < 0xF0
  · obtain ⟨x, rfl⟩ : ∃ x, byte = x + 0xE0 := ⟨byte - 0xE0, by omega⟩
    rw [lead_three (by omega)]
    exact .three (by omega) rfl
  by_cases four : 0xF0 ≤ byte ∧ byte < 0xF5
  · obtain ⟨x, rfl⟩ : ∃ x, byte = x + 0xF0 := ⟨byte - 0xF0, by omega⟩
    rw [lead_four (by omega)]
    exact .four (by omega) rfl
  by_cases ascii : byte < 0x80
  · rw [lead_ascii ascii]
    exact .ascii ascii
  · have refused : lead byte = ([replacement], .boundary) := by
      unfold lead
      split_ifs <;> first | rfl | omega
    rw [refused]
    exact .refused (by omega)

section Characters

variable {byte : UInt8} {tail : List UInt8} {state : State} {c : Char}

theorem toNat_val_ofNat {n : Nat} (valid : n < 0xD800 ∨ 0xDFFF < n ∧ n < 0x110000) :
    (Char.ofNat n).val.toNat = n := by
  rw [Char.ofNat, dif_pos valid]
  rfl

/-- The first byte of a character and the bytes that are awaited then are that character. -/
theorem utf8EncodeChar_of_awaits (first : lead byte.toNat = ([], state))
    (rest : Awaits state tail c) : String.utf8EncodeChar c = byte :: tail := by
  have leads := leads_lead byte.toNat
  rw [first] at leads
  unfold String.utf8EncodeChar
  cases leads with
  | two least bound first =>
    obtain ⟨expected, rfl⟩ := rest
    rw [toNat_val_ofNat (by omega), if_neg (by omega), if_pos (by omega)]
    simp only [List.cons.injEq, ← UInt8.toNat_inj, UInt8.toNat_ofNat', and_true]
    omega
  | @three x bound first =>
    obtain _ | @⟨_, _, _, _, second, _, _, expected, ⟨expected', rfl⟩⟩ := rest
    have bounds : 0x80 ≤ second.toNat ∧ second.toNat ≤ 0xBF ∧ (x = 0 → 0xA0 ≤ second.toNat) ∧
        (x = 13 → second.toNat ≤ 0x9F) := by
      split_ifs at expected <;> omega
    rw [toNat_val_ofNat (by omega), if_neg (by omega), if_neg (by omega), if_pos (by omega)]
    simp only [List.cons.injEq, ← UInt8.toNat_inj, UInt8.toNat_ofNat', and_true]
    omega
  | @four x bound first =>
    obtain _ | @⟨_, _, _, _, second, _, _, expected, _ | ⟨expected', ⟨expected'', rfl⟩⟩⟩ := rest
    have bounds : 0x80 ≤ second.toNat ∧ second.toNat ≤ 0xBF ∧ (x = 0 → 0x90 ≤ second.toNat) ∧
        (x = 4 → second.toNat ≤ 0x8F) := by
      split_ifs at expected <;> omega
    rw [toNat_val_ofNat (by omega), if_neg (by omega), if_neg (by omega), if_neg (by omega)]
    simp only [List.cons.injEq, ← UInt8.toNat_inj, UInt8.toNat_ofNat', and_true]
    omega

theorem utf8EncodeChar_ascii (ascii : byte.toNat < 0x80) :
    String.utf8EncodeChar (Char.ofNat byte.toNat) = [byte] := by
  have valid : byte.toNat < 0xD800 ∨ 0xDFFF < byte.toNat ∧ byte.toNat < 0x110000 := by omega
  unfold String.utf8EncodeChar
  rw [toNat_val_ofNat valid, if_pos (by omega), UInt8.ofNat_toNat]

/-- A byte that is expected can be gone on with until a character is whole. -/
theorem exists_awaits_of_expected (more bits : Nat) {low high : Nat} {byte : UInt8}
    (expected : low ≤ byte.toNat ∧ byte.toNat ≤ high) :
    ∃ tail c, Awaits (.inside more bits low high) (byte :: tail) c := by
  induction more generalizing bits low high byte with
  | zero => exact ⟨[], _, .last expected rfl⟩
  | succ more ih =>
    have least : 0x80 ≤ (0x80 : UInt8).toNat ∧ (0x80 : UInt8).toNat ≤ 0xBF := by decide
    obtain ⟨tail, c, rest⟩ := ih (bits * 0x40 + byte.toNat % 0x40) least
    exact ⟨_, c, .more expected rest⟩

theorem exists_awaits_of_lead (first : lead byte.toNat = ([], state)) :
    ∃ next tail c, Awaits state (next :: tail) c := by
  have leads := leads_lead byte.toNat
  rw [first] at leads
  cases leads with
  | two => exact ⟨0x80, exists_awaits_of_expected _ _ (by decide)⟩
  | @three x =>
    refine ⟨if x = 0 then 0xA0 else 0x80, exists_awaits_of_expected _ _ ?_⟩
    split_ifs <;> first | decide | omega
  | @four x =>
    refine ⟨if x = 0 then 0x90 else 0x80, exists_awaits_of_expected _ _ ?_⟩
    split_ifs <;> first | decide | omega

end Characters

section Parts

variable {byte : UInt8} {part tail bytes : List UInt8} {state : State}

theorem Subpart.ne_nil (h : Subpart part) : part ≠ [] := by
  cases h with
  | single => exact List.cons_ne_nil _ _
  | head notEmpty => exact notEmpty

/-- Inside a character the bytes that could go on with it are read without a trace. Where no
further one could, at the end too, one replacement stands for all of them. -/
theorem decodeFrom_cut (goesOn : ∃ rest c, rest ≠ [] ∧ Awaits state (part ++ rest) c)
    (stops : ∀ next ∈ bytes.head?, ∀ rest c, ¬Awaits state (part ++ next :: rest) c) :
    decodeFrom state [] (part ++ bytes) = replacement :: decode bytes := by
  induction part generalizing state with
  | nil =>
    have inside : ∃ more bits low high, state = .inside more bits low high := by
      obtain ⟨rest, c, -, awaits⟩ := goesOn
      cases awaits <;> exact ⟨_, _, _, _, rfl⟩
    obtain ⟨more, bits, low, high, rfl⟩ := inside
    cases bytes with
    | nil => rfl
    | cons next bytes =>
      have refused : ¬(low ≤ next.toNat ∧ next.toNat ≤ high) := by
        intro expected
        obtain ⟨rest, c, awaits⟩ := exists_awaits_of_expected more bits expected
        exact stops next rfl rest c awaits
      rw [List.nil_append, decodeFrom_cons, step_refused refused, decode, decodeFrom_cons]
      rfl
  | cons byte part ih =>
    obtain ⟨rest, c, notEmpty, awaits⟩ := goesOn
    rw [List.cons_append] at awaits
    generalize split : part ++ rest = tail at awaits
    cases awaits with
    | last => exact absurd (List.append_eq_nil_iff.1 split).2 notEmpty
    | more expected awaits =>
      subst split
      rw [List.cons_append, decodeFrom_cons, step_more expected, List.nil_append]
      exact ih ⟨rest, c, notEmpty, awaits⟩ fun next head rest c awaits =>
        stops next head rest c (.more expected awaits)

/-- So the longest subpart is replaced where it is less than the character that it begins. -/
theorem decodeFrom_replaced (first : lead byte.toNat = ([], state))
    (noChar : ∀ c, ¬String.utf8EncodeChar c <+: byte :: (tail ++ bytes))
    (maximal : LongestSubpart (byte :: tail) bytes) :
    decodeFrom state [] (tail ++ bytes) = replacement :: decode bytes := by
  apply decodeFrom_cut
  · cases maximal.subpart with
    | single =>
      obtain ⟨next, rest, c, awaits⟩ := exists_awaits_of_lead first
      exact ⟨next :: rest, c, List.cons_ne_nil _ _, awaits⟩
    | @head _ c _ starts =>
      obtain ⟨rest, text⟩ := starts
      have notWhole : rest ≠ [] := by
        rintro rfl
        rw [List.append_nil] at text
        exact noChar c ⟨bytes, by rw [← text]; rfl⟩
      rcases lead_of_utf8EncodeChar text.symm with ⟨alone, -⟩ | ⟨state', inside, awaits⟩
      · exact absurd (List.append_eq_nil_iff.1 alone).2 notWhole
      · rw [first] at inside
        cases inside
        exact ⟨rest, c, notWhole, awaits⟩
  · intro next head rest c awaits
    obtain ⟨bytes, rfl⟩ := List.head?_eq_some_iff.1 head
    have text := utf8EncodeChar_of_awaits first awaits
    have longer : Subpart (byte :: (tail ++ [next])) := by
      refine .head (c := c) (List.cons_ne_nil _ _) ⟨rest, ?_⟩
      rw [text]
      simp
    have short := maximal.longest _ longer ⟨bytes, by simp⟩
    rw [List.length_cons, List.length_append, List.length_cons] at short
    exact absurd short (by simp)

/-- Where no character stands the longest subpart is read as one replacement. -/
theorem decode_replaced (noChar : ∀ c, ¬String.utf8EncodeChar c <+: part ++ bytes)
    (maximal : LongestSubpart part bytes) :
    decode (part ++ bytes) = replacement :: decode bytes := by
  obtain ⟨byte, tail, rfl⟩ := List.exists_cons_of_ne_nil maximal.subpart.ne_nil
  have leads := leads_lead byte.toNat
  rw [decode, List.cons_append, decodeFrom_cons, step]
  generalize first : lead byte.toNat = found at leads ⊢
  cases leads with
  | ascii small =>
    exact absurd ⟨tail ++ bytes, by rw [utf8EncodeChar_ascii small]; rfl⟩ (noChar _)
  | refused =>
    cases maximal.subpart with
    | single => rfl
    | head _ starts =>
      obtain ⟨rest, text⟩ := starts
      rcases lead_of_utf8EncodeChar text.symm with ⟨alone, -⟩ | ⟨state, inside, -⟩
      · rw [(List.append_eq_nil_iff.1 alone).1]
        rfl
      · rw [first] at inside
        cases inside
  | two | three | four => exact decodeFrom_replaced first noChar maximal

theorem exists_longestSubpart (notEmpty : bytes ≠ []) :
    ∃ part rest, bytes = part ++ rest ∧ LongestSubpart part rest := by
  classical
  have least : 1 ≤ bytes.length := List.length_pos_iff.2 notEmpty
  have single : Subpart (bytes.take 1) := by
    cases bytes with
    | nil => contradiction
    | cons byte bytes => exact .single byte
  have found := Nat.findGreatest_spec (P := fun n => Subpart (bytes.take n)) least single
  have bound := Nat.findGreatest_le (P := fun n => Subpart (bytes.take n)) bytes.length
  refine ⟨_, _, (List.take_append_drop _ bytes).symm, found, ?_⟩
  intro part' subpart starts
  rw [List.take_append_drop] at starts
  rw [List.length_take, Nat.min_eq_left bound]
  rw [List.prefix_iff_eq_take.1 starts] at subpart
  exact Nat.le_findGreatest starts.length_le subpart

end Parts

theorem decoded_decode (bytes : List UInt8) : Decoded bytes (decode bytes) := by
  by_cases notEmpty : bytes = []
  · rw [notEmpty]
    exact .nil
  by_cases stands : ∃ c, String.utf8EncodeChar c <+: bytes
  · obtain ⟨c, rest, text⟩ := stands
    rw [← text, decode, decodeFrom_utf8EncodeChar]
    exact .char c (decoded_decode rest)
  · obtain ⟨part, rest, text, maximal⟩ := exists_longestSubpart notEmpty
    have noChar := not_exists.1 stands
    rw [text] at noChar ⊢
    rw [decode_replaced noChar maximal]
    exact .replaced noChar maximal (decoded_decode rest)
termination_by bytes.length
decreasing_by
  · have pos := c.utf8Size_pos
    rw [← text, List.length_append, String.length_utf8EncodeChar]
    omega
  · have pos := List.length_pos_iff.2 maximal.subpart.ne_nil
    rw [text, List.length_append]
    omega

theorem decode_eq_iff {bytes : List UInt8} {cs : List Char} :
    decode bytes = cs ↔ Decoded bytes cs := by
  constructor
  · rintro rfl
    exact decoded_decode bytes
  · intro decoded
    induction decoded with
    | nil => rfl
    | char c _ ih =>
      rw [decode, decodeFrom_utf8EncodeChar, ← ih]
      rfl
    | replaced noChar maximal _ ih => rw [decode_replaced noChar maximal, ih]

-- Two bytes that a character of three begins with, and two that no character begins with.
example :
    decode [0xE2, 0x82] = [replacement] ∧ decode [0xE0, 0x80] = [replacement, replacement] := by
  decide

/-- A byte below 0x80 is read as itself whatever stands around it. -/
theorem decodeFrom_append_ascii {state : State} (sound : state.Sound) {byte : UInt8}
    (ascii : byte.toNat < 0x80) (a b : List UInt8) :
    decodeFrom state [] (a ++ byte :: b) =
      decodeFrom state [] a ++ Char.ofNat byte.toNat :: decode b := by
  induction a generalizing state with
  | nil => exact decodeFrom_ascii sound ascii b
  | cons first a ih =>
    rw [List.cons_append, decodeFrom_cons, decodeFrom_cons, ih (sound_step sound _),
      List.append_assoc]

/-- The line feeds of a text are the bytes 0x0A. -/
theorem count_newline_decodeFrom {state : State} (sound : state.Sound) (bytes : List UInt8) :
    (decodeFrom state [] bytes).count '\n' = bytes.count 0x0A := by
  induction bytes generalizing state with
  | nil => cases state <;> rfl
  | cons byte bytes ih =>
    rw [decodeFrom_cons, List.count_append, ih (sound_step sound _), List.count_cons,
      Nat.add_comm, Nat.add_left_cancel_iff]
    split_ifs with newline
    · rw [beq_iff_eq] at newline
      rw [newline, step_ascii sound (by decide)]
      cases state <;> rfl
    · have other : byte.toNat ≠ 0x0A := fun same =>
        newline (beq_iff_eq.2 (UInt8.toNat_inj.1 same))
      exact List.count_eq_zero.2 (newline_not_mem_step sound other)

theorem decode_append_ascii (a : List UInt8) (byte : UInt8) (b : List UInt8)
    (ascii : byte.toNat < 0x80) :
    decode (a ++ [byte] ++ b) = decode a ++ [Char.ofNat byte.toNat] ++ decode b := by
  have start : State.boundary.Sound := trivial
  rw [List.append_assoc, List.append_assoc]
  exact decodeFrom_append_ascii start ascii a b

theorem count_newline_decode (bytes : List UInt8) :
    (decode bytes).count '\n' = bytes.count 0x0A := by
  have start : State.boundary.Sound := trivial
  exact count_newline_decodeFrom start bytes

end Text.Utf8

open Text.Utf8 in
/-- Bytes are read as the characters that they are, with one U+FFFD for each longest part where no
character stands, and no malformed part takes in a byte below 0x80. So bytes with a line feed
between them are scanned as either part alone, the second one on lower lines, and the token of type
EOF stands on the line that the line feeds lead to. -/
theorem scan_malformed (filename : String) :
    (∀ bytes cs, decode bytes = cs ↔ Decoded bytes cs) ∧
    (∀ a (byte : UInt8) b, byte.toNat < 0x80 →
      decode (a ++ [byte] ++ b) = decode a ++ [Char.ofNat byte.toNat] ++ decode b) ∧
    ∀ a b, ∃ front,
      (scan (.bytes a) filename).tokens = front ++ [.endOn (1 + a.count 0x0A)] ∧
      (scan (.bytes (a ++ [0x0A] ++ b)) filename).tokens =
        front ++ (scan (.bytes b) filename).tokens.map (Token.lowered (1 + a.count 0x0A)) ∧
      (scan (.bytes (a ++ [0x0A] ++ b)) filename).errors =
        (scan (.bytes a) filename).errors ++
          (scan (.bytes b) filename).errors.map (ScanError.lowered (1 + a.count 0x0A)) := by
  refine ⟨fun bytes cs => decode_eq_iff, decode_append_ascii, fun a b => ?_⟩
  have text : decode (a ++ [0x0A] ++ b) = decode a ++ '\n' :: decode b := by
    rw [decode_append_ascii a 0x0A b (by decide), List.append_assoc]
    rfl
  have further : (1 + (1 + a.count 0x0A) - 1 : Int) = 1 + a.count 0x0A := by omega
  have last : Token.endOn (1 + (a ++ [0x0A] ++ b).count 0x0A) =
      (Token.endOn (1 + b.count 0x0A)).lowered (1 + a.count 0x0A) := by
    rw [Token.endOn, Token.endOn, Token.lowered, List.count_append, List.count_append,
      List.count_singleton_self]
    congr 1
    push_cast
    omega
  simp only [scan_eq, Source.chars, Cursor.start, count_newline_decode, last]
  rw [text, Cursor.items_append_newline, count_newline_decode, List.filterMap_append,
    List.filterMap_append, tokens_lowered (decode b) 0 _ 1,
    errors_lowered filename (decode b) 0 _ 1, further]
  refine ⟨_, rfl, ?_, rfl⟩
  rw [List.map_append, List.append_assoc]
  rfl

open Text.Utf8 in
/-- Two bytes of a character that is cut short are one part, whether a line feed or the end of the
bytes comes next. -/
theorem scan_malformed_cutShort : (0x0A : UInt8).toNat < 0x80 ∧
    decode ([0xE2, 0x82] ++ [0x0A] ++ [0xE2, 0x82]) = [replacement, '\n', replacement] := by
  have ascii : (0x0A : UInt8).toNat < 0x80 := by decide
  have apart := (scan_malformed "").2.1 [0xE2, 0x82] 0x0A [0xE2, 0x82] ascii
  refine ⟨ascii, apart.trans ?_⟩
  decide

end ScriptFront
