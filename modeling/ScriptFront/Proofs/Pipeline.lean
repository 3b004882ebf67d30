import ScriptFront.Proofs.CorrectPrefix
import ScriptFront.Proofs.Guarded.Scan
import ScriptFront.Proofs.Spans

/-!
# Scanning and reading without failure

Every token of a scan carries the literal that its type promises, and the reader asks for nothing
else. So each reading ends with a tree, which has a text whatever it is, or at a token that does not
fit, and the next reading goes on from a place of the same list.
-/
namespace ScriptFront

/-- Numbers and strings carry their values, and no other token carries one. -/
theorem Lexeme.literal_cases {l : List Char} {type : TokenType} {literal : Literal}
    (h : Lexeme l type literal) :
    (type = .number ∧ ∃ x, literal = .number x) ∨ (type = .string ∧ ∃ s, literal = .text s) ∨
      (type.isLiteral = false ∧ literal = .null) := by
  cases h with
  | fixed listed =>
    have plain : ∀ p ∈ fixedLexemes, p.2.isLiteral = false := by decide
    exact .inr (.inr ⟨plain _ listed, rfl⟩)
  | string => exact .inr (.inl ⟨rfl, _, rfl⟩)
  | whole | fraction => exact .inl ⟨rfl, _, rfl⟩
  | keyword | identifier => exact .inr (.inr ⟨rfl, rfl⟩)

theorem Lexeme.carries {l : List Char} {t : Token} (h : Lexeme l t.type t.literal) : t.Carries := by
  rcases h.literal_cases with ⟨type, held⟩ | ⟨type, held⟩ | ⟨plain, -⟩
  · exact ⟨fun _ => held, fun string => by simp [type] at string⟩
  · exact ⟨fun number => by simp [type] at number, fun _ => held⟩
  · constructor
    · intro number
      rw [number] at plain
      cases plain
    · intro string
      rw [string] at plain
      cases plain

theorem Token.carries_endOn (line : Int) : (endOn line).Carries where
  number type := by cases type
  string type := by cases type

theorem carries_of_mem_scan {source : Source} {filename : String} {t : Token}
    (h : t ∈ (scan source filename).tokens) : t.Carries := by
  rw [scan_eq] at h
  rcases List.mem_append.1 h with found | last
  · exact (lexeme_of_mem_items found).carries
  · rw [List.mem_singleton.1 last]
    exact Token.carries_endOn _

theorem Token.Carries.exists_listed {t : Token} (h : t.Carries) : ∃ text, t.listed = .ok text := by
  unfold listed literalText
  split
  · rename_i type
    obtain ⟨x, held⟩ := h.number type
    rw [held]
    exact ⟨_, rfl⟩
  · exact ⟨_, rfl⟩
  · exact ⟨_, rfl⟩

namespace Expr

variable {ts : List Token}

/-- `ReadsSafely ts start stop`: from place `start` on the tokens up to place `stop` are read as the
expression they are, or passed up to a token that does not fit. -/
def ReadsSafely (ts : List Token) (start stop : Nat) : Prop :=
  (∃ e, read (.place ts start) = (.ok e, .place ts stop) ∧ Derives (ts.extract start stop) e) ∨
  ∃ e, read (.place ts start) = (.error (.parse e), .place ts stop)

/-- From every place of a list whose tokens carry what they promise, a reading is safe and ends at
a place of the list. -/
theorem exists_readsSafely (carried : ∀ t ∈ ts, t.Carries) {start : Nat}
    (inside : start ≤ ts.length) :
    ∃ stop, start ≤ stop ∧ stop ≤ ts.length ∧ ReadsSafely ts start stop := by
  have within : ∀ {passed behind : List Token}, ts.drop start = passed ++ behind →
      start + passed.length ≤ ts.length := by
    intro passed behind split
    have size := congrArg List.length split
    rw [List.length_drop, List.length_append] at size
    omega
  cases ran : read (.place ts start) with
  | mk result c =>
    cases result with
    | ok e =>
      have under := ran
      rw [read_place] at under
      obtain ⟨word, behind, derived, split, derives, closed⟩ := exists_derives_of_readUnder rfl
        (fun t mem => carried t (List.mem_of_mem_drop mem)) under
      rw [close, Prod.mk.injEq, Except.ok.injEq, place_behind split] at closed
      obtain ⟨rfl, rfl⟩ := closed
      refine ⟨_, Nat.le_add_right _ _, within split, .inl ⟨derived, ran, ?_⟩⟩
      rwa [extract_of_drop split]
    | error failure =>
      obtain ⟨passed, behind, split, rfl, refused⟩ := refused_of_read rfl ran
      rw [place_behind split] at ran refused
      refine ⟨_, Nat.le_add_right _ _, within split, .inr ?_⟩
      cases refused with
      | @parse _ _ e => exact ⟨e, ran⟩
      | @literal before t _ e held =>
        -- The last token passed is a literal, so it carries a value.
        have mem : t ∈ ts := by
          apply List.mem_of_mem_drop (i := start)
          simp [split]
        have stands : t.IsValue := by simp [isValue_iff, held]
        obtain ⟨value, denotes⟩ := (carried t mem).exists_denotes stands
        rw [atomOf?_of_gives (.literal denotes)] at held
        cases held

/-- The place after some readings, each from where the one before it ended. -/
def afterReadings (c : TokenCursor) : Nat → TokenCursor
  | 0 => c
  | n + 1 => (read (afterReadings c n)).2

/-- The reading that follows `n` others, each from where the one before it ended. -/
def reading (c : TokenCursor) (n : Nat) : Outcome := read (afterReadings c n)

theorem exists_afterReadings (carried : ∀ t ∈ ts, t.Carries) (n : Nat) :
    ∃ start, start ≤ ts.length ∧ afterReadings (.ofTokens ts) n = .place ts start := by
  induction n with
  | zero => exact ⟨0, Nat.zero_le _, rfl⟩
  | succ n ih =>
    obtain ⟨start, inside, reached⟩ := ih
    obtain ⟨stop, -, within, ⟨e, ran, -⟩ | ⟨e, ran⟩⟩ := exists_readsSafely carried inside
    · exact ⟨stop, within, by rw [afterReadings, reached, ran]⟩
    · exact ⟨stop, within, by rw [afterReadings, reached, ran]⟩

end Expr

/-- Nothing fails unexpectedly on the way from a script to its trees. Scanning with all guards ends
with the result of the scan; its tokens carry what they promise and can be listed; and each of any
number of readings from them gives the tree of the tokens it passes, with the numbers and texts that
they carry in it, or else an error that points at a token. -/
theorem scan_read_safe (source : Source) (filename : String) :
    Guarded.scan source filename = .ok (scan source filename) ∧
    (∀ t ∈ (scan source filename).tokens, t.Carries ∧ ∃ text, t.listed = .ok text) ∧
    ∀ n, ∃ start stop, start ≤ stop ∧ stop ≤ (scan source filename).tokens.length ∧
      Expr.afterReadings (.ofTokens (scan source filename).tokens) n =
        .place (scan source filename).tokens start ∧
      Expr.ReadsSafely (scan source filename).tokens start stop := by
  have carried : ∀ t ∈ (scan source filename).tokens, t.Carries := fun _ => carries_of_mem_scan
  refine ⟨Guarded.scan_eq_ok source filename, ?_, ?_⟩
  · intro t mem
    exact ⟨carried t mem, (carried t mem).exists_listed⟩
  · intro n
    obtain ⟨start, inside, reached⟩ := Expr.exists_afterReadings carried n
    obtain ⟨stop, ordered, within, safe⟩ := Expr.exists_readsSafely carried inside
    exact ⟨start, stop, ordered, within, reached, safe⟩

end ScriptFront
