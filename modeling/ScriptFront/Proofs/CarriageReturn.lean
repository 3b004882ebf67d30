import ScriptFront.Proofs.Encoding
import ScriptFront.Proofs.Recovery

/-!
# Carriage returns

A carriage return in front of every line feed is one more blank behind a lexeme, one more character
of a comment, and one more blank of a gap. Only a string that a line feed cuts off takes it in. So a
script is scanned into the same tokens on the same lines, and into the same errors but for that one
character. It makes no difference whether the returns are put into a text or into its bytes, for no
other byte stands for a line feed.
-/
namespace ScriptFront

namespace Text

/-- A list with `mark` in front of every `feed`. -/
def markFeeds {α : Type} [DecidableEq α] (mark feed : α) (xs : List α) : List α :=
  xs.flatMap fun x => if x = feed then [mark, feed] else [x]

section MarkFeeds

variable {α : Type} [DecidableEq α] (mark feed : α)

theorem markFeeds_append (xs ys : List α) :
    markFeeds mark feed (xs ++ ys) = markFeeds mark feed xs ++ markFeeds mark feed ys :=
  List.flatMap_append

theorem markFeeds_feed (xs : List α) :
    markFeeds mark feed (feed :: xs) = mark :: feed :: markFeeds mark feed xs := by
  simp [markFeeds]

variable {mark feed}

theorem markFeeds_cons_of_ne {x : α} (other : x ≠ feed) (xs : List α) :
    markFeeds mark feed (x :: xs) = x :: markFeeds mark feed xs := by
  simp [markFeeds, other]

theorem markFeeds_of_not_mem {xs : List α} (none : feed ∉ xs) : markFeeds mark feed xs = xs := by
  induction xs with
  | nil => rfl
  | cons x xs ih =>
    obtain ⟨other, none⟩ := not_or.1 (List.mem_cons.not.1 none)
    rw [markFeeds_cons_of_ne (Ne.symm other), ih none]

end MarkFeeds

/-- A text with a carriage return in front of every line feed. -/
def crlf (cs : List Char) : List Char := markFeeds '\r' '\n' cs

theorem crlf_append (a b : List Char) : crlf (a ++ b) = crlf a ++ crlf b := markFeeds_append _ _ _ _

theorem crlf_newline (cs : List Char) : crlf ('\n' :: cs) = '\r' :: '\n' :: crlf cs :=
  markFeeds_feed _ _ _

theorem crlf_of_not_mem {cs : List Char} (oneLine : '\n' ∉ cs) : crlf cs = cs :=
  markFeeds_of_not_mem oneLine

theorem crlf_cons_of_ne {x : Char} (other : x ≠ '\n') (cs : List Char) :
    crlf (x :: cs) = x :: crlf cs :=
  markFeeds_cons_of_ne other cs

theorem count_crlf (cs : List Char) : (crlf cs).count '\n' = cs.count '\n' := by
  induction cs with
  | nil => rfl
  | cons x cs ih =>
    by_cases newline : x = '\n'
    · rw [newline, crlf_newline, List.count_cons_of_ne (by decide), List.count_cons_self,
        List.count_cons_self, ih]
    · rw [crlf_cons_of_ne newline, List.count_cons_of_ne newline, List.count_cons_of_ne newline, ih]

theorem head_crlf {cs : List Char} (ends : EndsLine cs) : ∀ x ∈ (crlf cs).head?, x = '\r' := by
  cases cs with
  | nil => simp [crlf, markFeeds]
  | cons x cs =>
    obtain rfl := (endsLine_cons x cs).1 ends
    simp [crlf_newline]

namespace Utf8

theorem newline_not_mem_finish (state : State) : '\n' ∉ finish state := by
  cases state <;> simp [finish, replacement]

/-- Carriage returns that are put into bytes are read as carriage returns in the text. -/
theorem decodeFrom_markFeeds {state : State} (sound : state.Sound) (bytes : List UInt8) :
    decodeFrom state [] (markFeeds 0x0D 0x0A bytes) = crlf (decodeFrom state [] bytes) := by
  have start : State.boundary.Sound := trivial
  induction bytes generalizing state with
  | nil => exact (crlf_of_not_mem (newline_not_mem_finish state)).symm
  | cons byte bytes ih =>
    by_cases feed : byte = 0x0A
    · calc decodeFrom state [] (markFeeds 0x0D 0x0A (byte :: bytes))
          = finish state ++
              '\r' :: '\n' :: decodeFrom .boundary [] (markFeeds 0x0D 0x0A bytes) := by
            rw [feed, markFeeds_feed, decodeFrom_ascii sound (by decide),
              decodeFrom_ascii start (by decide)]
            rfl
        _ = crlf (finish state ++ '\n' :: decodeFrom .boundary [] bytes) := by
            rw [ih start, crlf_append, crlf_newline, crlf_of_not_mem (newline_not_mem_finish state)]
        _ = crlf (decodeFrom state [] (byte :: bytes)) := by
            rw [feed, decodeFrom_ascii sound (by decide)]
            rfl
    · have other : byte.toNat ≠ 0x0A := by
        intro same
        exact feed (UInt8.toNat_inj.1 same)
      rw [markFeeds_cons_of_ne feed, decodeFrom_cons, decodeFrom_cons, crlf_append,
        crlf_of_not_mem (newline_not_mem_step sound other), ih (sound_step sound _)]

end Utf8

end Text

def Source.crlf : Source → Source
  | text s => text (String.ofList (Text.crlf s.toList))
  | bytes bs => bytes (Text.markFeeds 0x0D 0x0A bs)

theorem Source.chars_crlf (source : Source) : source.crlf.chars = Text.crlf source.chars := by
  cases source with
  | text s => exact String.toList_ofList
  | bytes bs =>
    have start : Text.Utf8.State.boundary.Sound := trivial
    exact Text.Utf8.decodeFrom_markFeeds start bs

/-- Trivia stays trivia: a carriage return is a blank, or one more character of a comment. -/
theorem Trivia.crlf {gap rest rest' : List Char} (h : Trivia gap rest)
    (ends : EndsLine rest → EndsLine rest') : Trivia (Text.crlf gap) rest' := by
  induction h with
  | none => exact .none
  | @blank x gap rest hx _ ih =>
    by_cases newline : x = '\n'
    · rw [newline, Text.crlf_newline]
      exact .blank (by simp) (.blank (by simp) (ih ends))
    · rw [Text.crlf_cons_of_ne newline]
      exact .blank hx (ih ends)
  | @comment body gap rest oneLine closed _ ih =>
    rw [Text.crlf_cons_of_ne (by decide), Text.crlf_cons_of_ne (by decide), Text.crlf_append,
      Text.crlf_of_not_mem oneLine]
    cases gap with
    | nil => exact .comment oneLine (ends closed) .none
    | cons x gap =>
      obtain rfl : x = '\n' := by simpa using closed
      have behind := ih ends
      rw [Text.crlf_newline] at behind ⊢
      cases behind with
      | blank _ more =>
        have oneLine' : '\n' ∉ body ++ ['\r'] := by simpa using oneLine
        rw [List.append_cons]
        exact .comment oneLine' (by simp) more

/-- Where no lexeme is the head of an opened string, nothing closes the string on its line. -/
theorem NoLexeme.inside_string {content rest : List Char}
    (none : NoLexeme ('"' :: (content ++ rest))) (oneLine : '\n' ∉ content) :
    ∀ x ∈ content, x ≠ '"' ∧ x ≠ '\n' := by
  obtain ⟨inner, tail, rfl, inside, ends | ⟨more, rfl⟩⟩ := Reading.exists_content content
  · cases tail with
    | nil => simpa using inside
    | cons x tail =>
      obtain rfl := (endsLine_cons x tail).1 ends
      simp at oneLine
  · have closed : '"' :: (inner ++ ['"']) <+: '"' :: (inner ++ '"' :: more ++ rest) :=
      ⟨more ++ rest, by simp⟩
    exact absurd closed (none.not_prefix (.string inside))

/-- In front of `rest` a string that a line feed cuts off takes in the carriage return; any other
cause stays. -/
def ScanError.Cause.crlf (rest : List Char) : Cause → Cause
  | .unterminatedString content =>
    .unterminatedString (if rest.head? = some '\n' then content ++ "\r" else content)
  | cause => cause

def ScanError.crlf (rest : List Char) (e : ScanError) : ScanError :=
  { e with cause := e.cause.crlf rest }

theorem ScanError.diagnostic_crlf (rest : List Char) (e : ScanError) :
    (e.crlf rest).diagnostic = e.diagnostic := by
  obtain ⟨cause, line, filename⟩ := e
  cases cause <;> rfl

namespace Reading

/-- `r.IsCut rest`: a line feed at the head of `rest` cuts a string off. -/
def IsCut (r : Reading) (rest : List Char) : Prop :=
  (∃ content, r.verdict = .error (.unterminatedString content)) ∧ rest.head? = some '\n'

/-- What no line feed cuts off stands there with the carriage returns put in behind it. -/
theorem Stands.crlf {r : Reading} {rest : List Char} (h : r.Stands rest) (whole : ¬r.IsCut rest) :
    r.Stands (Text.crlf rest) := by
  obtain ⟨line, tail, rfl, oneLine, ends⟩ := exists_line rest
  have blank : ∀ x ∈ (Text.crlf tail).head?, x ∈ [' ', '\t', '\r', '\n'] := by
    intro x head
    simp [Text.head_crlf ends x head]
  rw [Text.crlf_append, Text.crlf_of_not_mem oneLine]
  apply h.congr_behind (.inr blank)
  intro none content verdict
  cases tail with
  | nil => exact endsLine_nil
  | cons x tail =>
    obtain rfl := (endsLine_cons x tail).1 ends
    exact absurd ⟨⟨content, verdict⟩, by rw [none]; rfl⟩ whole

/-- A string that a line feed cuts off takes in a carriage return in front of the line feed. -/
theorem Stands.unterminated_concat {r : Reading} {more : List Char} {content : String}
    (h : r.Stands ('\n' :: more)) (verdict : r.verdict = .error (.unterminatedString content))
    (more' : List Char) :
    Stands ⟨r.lexeme ++ ['\r'], .error (.unterminatedString (content ++ "\r"))⟩
      ('\n' :: more') := by
  obtain ⟨munch, -⟩ := h
  generalize same : r.lexeme ++ '\n' :: more = text at munch
  cases munch with
  | token => cases verdict
  | unexpected => cases verdict
  | @unterminated body rest none oneLine ends =>
    cases verdict
    have inside : ∀ x ∈ body ++ ['\r'], x ≠ '"' ∧ x ≠ '\n' := by
      intro x mem
      rcases List.mem_append.1 mem with mem | mem
      · exact none.inside_string oneLine x mem
      · rw [List.mem_singleton.1 mem]
        decide
    have text : String.ofList (body ++ ['\r']) = String.ofList body ++ "\r" :=
      String.ofList_append
    have read : first '"' (body ++ ['\r'] ++ '\n' :: more') =
        ⟨'"' :: (body ++ ['\r']), .error (.unterminatedString (String.ofList body ++ "\r"))⟩ := by
      rw [first_quote, string_unterminated inside (by simp), text]
    have stop : Cursor.triviaLength false ('"' :: (body ++ ['\r'] ++ '\n' :: more')) = 0 :=
      Cursor.triviaLength_cons_eq_zero.2 ⟨by decide, by simp⟩
    have stands : (first '"' (body ++ ['\r'] ++ '\n' :: more')).Stands ('\n' :: more') := by
      apply stands_first stop
      rw [read]
      rfl
    rwa [read] at stands

/-- With the carriage returns put in behind it a reading is what it was, but for a string that a
line feed cuts off: that one takes in what is put in front of the line feed, and this is a blank. -/
theorem Stands.exists_crlf {r : Reading} {rest : List Char} (h : r.Stands rest) :
    ∃ r' taken behind, Text.crlf rest = taken ++ behind ∧ Trivia taken behind ∧ '\n' ∉ taken ∧
      r'.lexeme = r.lexeme ++ taken ∧ r'.Stands behind ∧
      ∀ (filename : String) (start start' : Nat) (line : Int),
        Item.token? ⟨start', line, r'⟩ = Item.token? ⟨start, line, r⟩ ∧
        Item.error? filename ⟨start', line, r'⟩ =
          (Item.error? filename ⟨start, line, r⟩).map (ScanError.crlf rest) := by
  by_cases cut : r.IsCut rest
  · obtain ⟨⟨content, verdict⟩, newline⟩ := cut
    obtain ⟨more, rfl⟩ := List.head?_eq_some_iff.1 newline
    refine ⟨_, ['\r'], '\n' :: Text.crlf more, Text.crlf_newline more, .blank (by simp) .none,
      by decide, rfl, h.unterminated_concat verdict (Text.crlf more), ?_⟩
    intro filename start start' line
    simp [Item.token?, Item.error?, verdict, ScanError.crlf, ScanError.Cause.crlf]
  · refine ⟨r, [], Text.crlf rest, rfl, .none, List.not_mem_nil, (List.append_nil _).symm,
      h.crlf cut, ?_⟩
    intro filename start start' line
    cases verdict : r.verdict with
    | ok p => simp [Item.token?, Item.error?, verdict]
    | error cause =>
      have same : cause.crlf rest = cause := by
        cases cause with
        | unterminatedString content =>
          have noNewline : rest.head? ≠ some '\n' := fun head => cut ⟨⟨content, verdict⟩, head⟩
          rw [ScanError.Cause.crlf, if_neg noNewline]
        | _ => rfl
      simp [Item.token?, Item.error?, verdict, ScanError.crlf, same]

end Reading

namespace Cursor

/-- With the carriage returns put in a text has the items it had, on the same lines, and only the
strings that a line feed cuts off differ. -/
theorem items_crlf (filename : String) (text cs : List Char) (position position' : Nat)
    (line : Int) (here : text.drop position = cs) :
    (items ⟨Text.crlf cs, position', line⟩).filterMap Item.token? =
        (items ⟨cs, position, line⟩).filterMap Item.token? ∧
      (items ⟨Text.crlf cs, position', line⟩).filterMap (Item.error? filename) =
        (items ⟨cs, position, line⟩).filterMap fun i =>
          (i.error? filename).map (ScanError.crlf (text.drop i.stop)) := by
  induction cs using standing_induction generalizing position position' line with
  | trivia gap hgap =>
    have hgap' : Trivia (Text.crlf gap) [] := hgap.crlf id
    rw [items_of_all_trivia hgap, items_of_all_trivia hgap']
    exact ⟨rfl, rfl⟩
  | item gap r rest hgap stands ih =>
    obtain ⟨r', taken, behind, marked, blank, sameLine, lexeme, stands', found⟩ :=
      stands.exists_crlf
    have hgap' : Trivia (Text.crlf gap) (r'.lexeme ++ behind) :=
      hgap.crlf fun ends => absurd ends stands.not_endsLine
    have split : Text.crlf (gap ++ (r.lexeme ++ rest)) =
        Text.crlf gap ++ (r'.lexeme ++ behind) := by
      rw [Text.crlf_append, Text.crlf_append, Text.crlf_of_not_mem stands.newline_not_mem, marked,
        lexeme, List.append_assoc]
    have noTaken : taken.count '\n' = 0 := List.count_eq_zero.2 sameLine
    have moved : items ⟨behind, position' + (Text.crlf gap ++ r'.lexeme).length,
          line + (Text.crlf gap ++ r'.lexeme).count '\n'⟩ =
        items ⟨Text.crlf rest, position' + (Text.crlf gap ++ r.lexeme).length,
          line + (gap ++ r.lexeme).count '\n'⟩ := by
      rw [marked, items_of_trivia blank, lexeme]
      simp only [List.length_append, List.count_append, Text.count_crlf, noTaken, Nat.add_assoc,
        Nat.add_zero, Int.natCast_zero, Int.add_zero]
    have start := drop_of_drop here
    obtain ⟨tokens, errors⟩ := ih (position + (gap ++ r.lexeme).length)
      (position' + (Text.crlf gap ++ r.lexeme).length) (line + (gap ++ r.lexeme).count '\n')
      (by rw [List.length_append, ← Nat.add_assoc]; exact drop_of_drop start)
    obtain ⟨token, error⟩ := found filename (position + gap.length)
      (position' + (Text.crlf gap).length) (line + gap.count '\n')
    have stop : text.drop (Item.stop ⟨position + gap.length, line + gap.count '\n', r⟩) = rest :=
      drop_of_drop start
    rw [split, items_of_stands hgap' stands', items_of_stands hgap stands, moved, Text.count_crlf]
    simp only [List.filterMap_cons, token, error, stop, tokens, errors, and_self]

end Cursor

/-- Carriage returns in front of the line feeds change no token and no line. The errors stay what
they were too, but for a string that a line feed cuts off: it takes in the carriage return. -/
theorem scan_crlf (source : Source) (filename : String) :
    Span.Account source filename (source.spans filename) ∧
    (scan source.crlf filename).tokens = (scan source filename).tokens ∧
    (scan source.crlf filename).errors = (source.spans filename).filterMap (fun s =>
      s.error?.map (ScanError.crlf (source.chars.drop s.stop))) ∧
    (scan source.crlf filename).errors.map ScanError.diagnostic =
      (scan source filename).errors.map ScanError.diagnostic := by
  have account := source.account_spans filename
  obtain ⟨tokens, errors⟩ := Cursor.items_crlf filename source.chars source.chars 0 0 1 rfl
  have found : (scan source.crlf filename).errors = (source.spans filename).filterMap (fun s =>
      s.error?.map (ScanError.crlf (source.chars.drop s.stop))) := by
    rw [scan_eq, source.chars_crlf, Source.spans, List.filterMap_map]
    refine errors.trans (congrArg (List.filterMap · _) (funext fun i => ?_))
    rw [Function.comp_apply, Item.error?_span]
    rfl
  refine ⟨account, ?_, found, ?_⟩
  · rw [scan_eq, scan_eq, source.chars_crlf, Text.count_crlf]
    exact congrArg (· ++ _) tokens
  · rw [found, account.errors, List.map_filterMap, List.map_filterMap]
    congr 1
    funext s
    rw [Option.map_map]
    congr 1
    funext e
    exact e.diagnostic_crlf _

/-- The line feed cuts the first string off, and the end of the text the second one. -/
example : (scan (Source.text "\"a\n\"b").crlf "").errors.map ScanError.cause =
    [.unterminatedString "a\r", .unterminatedString "b"] := by
  rw [scan_eq]
  with_unfolding_all rfl

end ScriptFront
