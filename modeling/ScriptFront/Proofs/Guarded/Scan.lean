import ScriptFront.Proofs.Guarded.Steps
import ScriptFront.Proofs.Item
import ScriptFront.Proofs.Lexeme

/-!
# Guarded scanning

A scan that takes nothing for granted. Each character it takes has to be one of the text; a number
is read off its lexeme, which has to be a numeral; an error is made out of a text, which has to be
one character where it does not print. Whatever does not hold ends the scan for good. Nothing does:
on every text the guarded scan ends, and its result is that of the scan.
-/
namespace ScriptFront.Guarded

variable {text : List Char} {p : Place}

/-- The number that a text denotes, which has to be digits with at most one point among them. -/
def numberOf (lexeme : List Char) : Except Failure Binary64 :=
  let refused := .error (.numeral (.malformed (String.ofList lexeme)))
  let whole := lexeme.takeWhile isDigit
  match lexeme.dropWhile isDigit with
  | [] => if whole = [] then refused else .ok (.ofNumeral whole [])
  | '.' :: fraction =>
    if fraction.all isDigit = true ∧ whole ++ fraction ≠ [] then .ok (.ofNumeral whole fraction)
    else refused
  | _ => refused

section Rules

variable (text : List Char) (filename : String) (line : Int) (start : Place)

/-- The rule for a string, from its opening quote on. -/
def string : Except Failure (Except ScanError Token × Place) := do
  let p ← passWhile text isStringPart (← advance text start)
  let x ← seen text p.position
  if p.position < text.length ∧ x = '"' then
    let stop ← advance text p
    let lexeme := text.extract start.position stop.position
    let content := lexeme.tail.dropLast
    return (.ok ⟨.string, String.ofList lexeme, .text (String.ofList content), line⟩, stop)
  else
    let content := text.extract (start.position + 1) p.position
    return (.error ⟨.unterminatedString (String.ofList content), line, some filename⟩, p)

/-- The place behind a number: behind its digits, or behind a point with digits after it. -/
def numberEnd : Except Failure Place := do
  let whole ← passWhile text isDigit start
  let x ← seen text whole.position
  let y ← seen text (whole.position + 1)
  if x = '.' ∧ isDigit y then passWhile text isDigit (← advance text whole) else return whole

def number : Except Failure (Except ScanError Token × Place) := do
  let stop ← numberEnd text start
  let lexeme := text.extract start.position stop.position
  let value ← numberOf lexeme
  return (.ok ⟨.number, String.ofList lexeme, .number value, line⟩, stop)

def word : Except Failure (Except ScanError Token × Place) := do
  let stop ← passWhile text isWordPart start
  let lexeme := String.ofList (text.extract start.position stop.position)
  let type := match Keyword.ofText? lexeme with
    | some k => .keyword k
    | none => .identifier
  return (.ok ⟨type, lexeme, .null, line⟩, stop)

/-- The rule that the next character selects, which has to be there. -/
def next : Except Failure (Except ScanError Token × Place) := do
  let x ← charAt text start.position
  match singleMarks.lookup x, operatorMarks.lookup x with
  | some type, _ => return (.ok ⟨type, String.singleton x, .null, start.line⟩, ← advance text start)
  | none, some (alone, withEqual) =>
    let p ← advance text start
    if (← seen text p.position) = '=' then
      let stop ← advance text p
      let lexeme := text.extract start.position stop.position
      return (.ok ⟨withEqual, String.ofList lexeme, .null, start.line⟩, stop)
    else return (.ok ⟨alone, String.singleton x, .null, start.line⟩, p)
  | none, none =>
    if x = '/' then
      return (.ok ⟨.slash, String.singleton x, .null, start.line⟩, ← advance text start)
    else if x = '"' then string text filename start.line start
    else if isDigit x then number text start.line start
    else if isWordStart x then word text start.line start
    else
      let stop ← advance text start
      let cause ← (ScanError.Cause.ofText (String.singleton x)).mapError .report
      return (.error ⟨cause, start.line, some filename⟩, stop)

end Rules

/-- A guarded scan in progress. -/
structure State where
  place : Place
  tokens : List Token
  errors : List ScanError

/-- Keeps a token or an error, and goes on behind it. -/
def State.keep (s : State) (found : Except ScanError Token) (p : Place) : State :=
  match found with
  | .ok token => ⟨p, s.tokens ++ [token], s.errors⟩
  | .error e => ⟨p, s.tokens, s.errors ++ [e]⟩

@[simp] theorem State.place_keep (s : State) (found : Except ScanError Token) (p : Place) :
    (s.keep found p).place = p := by
  cases found <;> rfl

/-- One turn: blanks and comments, then one rule unless the text has ended. -/
def turn (text : List Char) (filename : String) (s : State) : Except Failure State := do
  let p ← skip text s.place
  if p.position < text.length then
    let (found, stop) ← next text filename p
    return s.keep found stop
  else return { s with place := p }

/-- What a reading finds on a line. -/
def outcome (filename : String) (line : Int) (r : Reading) : Except ScanError Token :=
  match r.verdict with
  | .ok (type, literal) => .ok ⟨type, String.ofList r.lexeme, literal, line⟩
  | .error cause => .error ⟨cause, line, some filename⟩

theorem numberOf_whole {ds : List Char} (digits : Numeral ds) :
    numberOf ds = .ok (.ofNumeral ds []) := by
  have all := digits.isDigit
  have whole : ds.takeWhile isDigit = ds := List.takeWhile_eq_self_iff.2 all
  have behind : ds.dropWhile isDigit = [] := List.dropWhile_eq_nil_iff.2 all
  simp [numberOf, whole, behind, digits.ne_nil]

theorem numberOf_fraction {ds fs : List Char} (digits : Numeral ds) (places : Numeral fs) :
    numberOf (ds ++ '.' :: fs) = .ok (.ofNumeral ds fs) := by
  have point : isDigit '.' = false := by decide
  have whole : (ds ++ '.' :: fs).takeWhile isDigit = ds := by
    simp [List.takeWhile_append_of_pos digits.isDigit, point]
  have behind : (ds ++ '.' :: fs).dropWhile isDigit = '.' :: fs := by
    simp [List.dropWhile_append_of_pos digits.isDigit, point]
  have inside : fs.all isDigit = true := List.all_eq_true.2 places.isDigit
  simp [numberOf, whole, behind, inside, digits.ne_nil]

theorem extract_past {head rest : List Char} (here : text.drop p.position = head ++ rest) :
    text.extract p.position (p.past head).position = head :=
  extract_of_drop here

variable {filename : String} {line : Int} {start : Place}

theorem string_of_drop {cs : List Char} (here : text.drop start.position = '"' :: cs) :
    string text filename line start = .ok (outcome filename line (.string ('"' :: cs)),
      start.past (Reading.string ('"' :: cs)).lexeme) := by
  obtain ⟨content, rest, rfl, inside, behind⟩ := Reading.exists_content cs
  have opened : text.drop (start.past ['"']).position = content ++ rest :=
    drop_past_singleton here
  have parts : ∀ x ∈ content, isStringPart x = true := fun x mem =>
    (isStringPart_iff x).2 (inside x mem)
  have stops : ∀ x ∈ rest.head?, isStringPart x = false := by
    intro x mem
    rcases behind with ends | ⟨more, rfl⟩
    · rw [ends x mem]
      decide
    · obtain rfl : '"' = x := by simpa using mem
      decide
  have closing := drop_past opened
  unfold string
  rw [advance_of_drop here, ok_bind, passWhile_of_drop opened parts stops, ok_bind,
    seen_of_drop closing, ok_bind]
  rcases behind with ends | ⟨more, rfl⟩
  · have open' : ¬(((start.past ['"']).past content).position < text.length ∧
        rest.head?.getD Scan.absent = '"') := by
      rintro ⟨-, quote⟩
      cases rest with
      | nil => exact absurd quote (by decide)
      | cons x rest =>
        obtain rfl := (endsLine_cons x rest).1 ends
        simp at quote
    have within : text.extract (start.position + 1) ((start.past ['"']).past content).position =
        content := extract_past opened
    rw [if_neg open', within, Reading.string_unterminated inside ends, ← start.past_append]
    rfl
  · have whole : text.drop start.position = '"' :: (content ++ ['"']) ++ more := by simpa using here
    have stop : ((start.past ['"']).past content).past ['"'] =
        start.past ('"' :: (content ++ ['"'])) := by
      rw [← start.past_append, ← start.past_append]
      simp
    rw [if_pos ⟨lt_of_drop closing, rfl⟩, advance_of_drop closing, ok_bind,
      Reading.string_closed inside, stop, extract_past whole]
    simp [outcome, pure, Except.pure]

/-- A point and a digit behind the digits of a number begin its fraction, and nothing else does. -/
theorem fraction_cases (rest : List Char) :
    (¬(rest.head?.getD Scan.absent = '.' ∧
        isDigit ((rest.drop 1).head?.getD Scan.absent) = true) ∧
      Reading.fractionDigits rest = []) ∨
    ∃ y fs more, rest = '.' :: (y :: fs ++ more) ∧ Numeral (y :: fs) ∧
      (∀ z ∈ more.head?, isDigit z = false) ∧ Reading.fractionDigits rest = y :: fs := by
  have absent : isDigit Scan.absent = false := by decide
  cases rest with
  | nil => exact .inl ⟨by simp [Scan.absent], rfl⟩
  | cons z rest =>
    by_cases begins : z = '.' ∧ isDigit (rest.head?.getD Scan.absent) = true
    · obtain ⟨rfl, digit⟩ := begins
      cases rest with
      | nil => simp [absent] at digit
      | cons y more =>
        have digit' : isDigit y = true := digit
        have numeral : Numeral (y :: more.takeWhile isDigit) := by
          simpa [digit'] using @Numeral.ofTakeWhile y more digit'
        refine .inr ⟨y, more.takeWhile isDigit, more.dropWhile isDigit, by simp, numeral, ?_, ?_⟩
        · exact fun z mem => eq_false_of_head?_dropWhile mem
        · simp [Reading.fractionDigits, digit']
    · refine .inl ⟨begins, ?_⟩
      unfold Reading.fractionDigits
      split
      · rename_i more point
        obtain ⟨rfl, rfl⟩ := List.cons.inj point
        cases rest with
        | nil => rfl
        | cons y more => simpa using begins
      · rfl

/-- Behind a digit the number is passed that the rule reads. -/
theorem numberEnd_of_drop {x : Char} {cs : List Char} (digit : isDigit x = true)
    (here : text.drop start.position = x :: cs) :
    numberEnd text start = .ok (start.past (Reading.number (x :: cs)).lexeme) := by
  have digits : Numeral ((x :: cs).takeWhile isDigit) := .ofTakeWhile digit
  have split := List.takeWhile_append_dropWhile (p := isDigit) (l := x :: cs)
  have stops : ∀ y ∈ ((x :: cs).dropWhile isDigit).head?, isDigit y = false := fun _ mem =>
    eq_false_of_head?_dropWhile mem
  unfold Reading.number
  rw [← split] at here
  generalize (x :: cs).takeWhile isDigit = ds at *
  generalize (x :: cs).dropWhile isDigit = rest at *
  have behind := drop_past here
  have further : text.drop ((start.past ds).position + 1) = rest.drop 1 := by
    rw [← List.drop_drop, behind]
  rw [numberEnd, passWhile_of_drop here digits.isDigit stops, ok_bind, seen_of_drop behind, ok_bind,
    seen_of_drop further, ok_bind]
  rcases fraction_cases rest with ⟨none, places⟩ | ⟨y, fs, more, rfl, numeral, stops', places⟩
  · rw [if_neg none, places]
    rfl
  · have point : text.drop ((start.past ds).past ['.']).position = y :: fs ++ more :=
      drop_past_singleton behind
    have stop : ((start.past ds).past ['.']).past (y :: fs) =
        start.past (ds ++ '.' :: y :: fs) := by
      rw [← start.past_append, ← start.past_append]
      simp
    rw [if_pos ⟨rfl, numeral.isDigit y (by simp)⟩, advance_of_drop behind, ok_bind,
      passWhile_of_drop point numeral.isDigit stops', stop, places]
    rfl

theorem numberOf_number {x : Char} (digit : isDigit x = true) (cs : List Char) :
    ∃ value, numberOf (Reading.number (x :: cs)).lexeme = .ok value ∧
      (Reading.number (x :: cs)).verdict = .ok (.number, .number value) := by
  have digits : Numeral ((x :: cs).takeWhile isDigit) := .ofTakeWhile digit
  refine ⟨_, ?_, rfl⟩
  simp only [Reading.number]
  split_ifs with none
  · rw [List.isEmpty_iff.1 none]
    exact numberOf_whole digits
  · have places := Reading.fractionDigits_isDigit ((x :: cs).dropWhile isDigit)
    apply numberOf_fraction digits
    constructor
    · simpa using none
    · intro d mem
      exact (isDigit_iff d).1 (places d mem)

theorem number_of_drop {x : Char} {cs : List Char} (digit : isDigit x = true)
    (here : text.drop start.position = x :: cs) :
    number text line start = .ok (outcome filename line (.number (x :: cs)),
      start.past (Reading.number (x :: cs)).lexeme) := by
  obtain ⟨rest, split⟩ := Reading.number_lexeme_isPrefix (x :: cs)
  obtain ⟨value, read, verdict⟩ := numberOf_number digit cs
  have lexeme := extract_past (here.trans split.symm)
  rw [number, numberEnd_of_drop digit here, ok_bind]
  simp only [lexeme, read, ok_bind, outcome, verdict]
  rfl

theorem word_of_drop {x : Char} {cs : List Char} (here : text.drop start.position = x :: cs) :
    word text line start = .ok (outcome filename line (.word (x :: cs)),
      start.past (Reading.word (x :: cs)).lexeme) := by
  have split := List.takeWhile_append_dropWhile (p := isWordPart) (l := x :: cs)
  have inside : ∀ y ∈ (x :: cs).takeWhile isWordPart, isWordPart y = true := fun y mem =>
    List.mem_takeWhile_imp mem
  have stops : ∀ y ∈ ((x :: cs).dropWhile isWordPart).head?, isWordPart y = false := fun _ mem =>
    eq_false_of_head?_dropWhile mem
  rw [← split] at here
  unfold word
  rw [passWhile_of_drop here inside stops, ok_bind, extract_past here]
  rfl

theorem ofText_singleton (x : Char) :
    ScanError.Cause.ofText (String.singleton x) = .ok (.unexpectedCharacter x) := by
  simp [ScanError.Cause.ofText]

/-- The rule that the next character selects reads what that character selects. -/
theorem next_of_drop {x : Char} {cs : List Char} (here : text.drop start.position = x :: cs) :
    next text filename start = .ok (outcome filename start.line (.first x cs),
      start.past (Reading.first x cs).lexeme) := by
  have passed := advance_of_drop here
  have behind : text.drop (start.past [x]).position = cs := drop_past_singleton here
  rw [next, charAt_of_drop here, ok_bind]
  unfold Reading.first
  cases singleMarks.lookup x with
  | some type =>
    simp only [passed, ok_bind, outcome, Reading.plain]
    rfl
  | none =>
    cases operatorMarks.lookup x with
    | some types =>
      obtain ⟨alone, withEqual⟩ := types
      simp only [passed, ok_bind]
      rw [seen_of_drop behind, ok_bind]
      by_cases equals : cs.head? = some '='
      · obtain ⟨more, rfl⟩ := List.head?_eq_some_iff.1 equals
        have whole : text.drop start.position = [x, '='] ++ more := here
        have stop : (start.past [x]).past ['='] = start.past [x, '='] := by
          rw [← start.past_append]
          rfl
        simp only [List.head?_cons, Option.getD_some, if_true]
        rw [advance_of_drop behind, ok_bind, stop]
        simp only [extract_past whole]
        rfl
      · have noEqual : cs.head?.getD Scan.absent ≠ '=' := by
          cases cs with
          | nil => decide
          | cons y cs => simpa using equals
        rw [if_neg noEqual, if_neg equals]
        rfl
    | none =>
      dsimp only
      split_ifs with slash quote digit letter
      · simp only [passed, ok_bind]
        rfl
      · rw [quote] at here ⊢
        exact string_of_drop here
      · exact number_of_drop digit here
      · exact word_of_drop here
      · have made : (ScanError.Cause.ofText (String.singleton x)).mapError Failure.report =
            .ok (.unexpectedCharacter x) := by
          rw [ofText_singleton]
          rfl
        simp only [passed, made, ok_bind]
        rfl

variable {s : State}

theorem turn_of_trivia {gap : List Char} (trivia : Trivia gap [])
    (here : text.drop s.place.position = gap) :
    turn text filename s = .ok { s with place := s.place.past gap } := by
  have here' : text.drop s.place.position = gap ++ [] := by rw [here, List.append_nil]
  have done := le_of_drop (drop_past here')
  rw [turn, skip_of_trivia trivia rfl here', ok_bind, if_neg (Nat.not_lt.2 done)]
  rfl

/-- Any other turn finds what stands behind the trivia. -/
theorem turn_of_item {gap cs : List Char} {x : Char} (trivia : Trivia gap (x :: cs))
    (stop : Cursor.triviaLength false (x :: cs) = 0)
    (here : text.drop s.place.position = gap ++ x :: cs) :
    turn text filename s = .ok (s.keep (outcome filename (s.place.past gap).line (.first x cs))
      ((s.place.past gap).past (Reading.first x cs).lexeme)) := by
  have behind := drop_past here
  rw [turn, skip_of_trivia trivia stop here, ok_bind, if_pos (lt_of_drop behind),
    next_of_drop behind, ok_bind]
  rfl

theorem position_turn (filename : String) (inside : s.place.position < text.length) :
    ∃ s', turn text filename s = .ok s' ∧ s.place.position < s'.place.position := by
  have left : text.drop s.place.position ≠ [] := by
    rw [ne_eq, List.drop_eq_nil_iff]
    omega
  generalize here : text.drop s.place.position = cs at left
  induction cs using Cursor.items_induction with
  | trivia gap trivia =>
    have taken := List.length_pos_iff.2 left
    exact ⟨_, turn_of_trivia trivia here, Nat.lt_add_of_pos_right taken⟩
  | item gap x cs rest trivia stop same _ =>
    have taken := List.length_pos_iff.2 (Reading.first_lexeme_ne_nil x cs)
    refine ⟨_, turn_of_item trivia stop here, ?_⟩
    rw [State.place_keep]
    simp only [Place.past]
    omega

/-- All turns from a place on. -/
def run (text : List Char) (filename : String) (s : State) : Except Failure State :=
  if s.place.position < text.length then
    match _ : turn text filename s with
    | .ok s' => run text filename s'
    | .error e => .error e
  else .ok s
termination_by text.length - s.place.position
decreasing_by
  rename_i inside turned
  obtain ⟨s'', turned', further⟩ := position_turn filename inside
  rw [turned', Except.ok.injEq] at turned
  subst turned
  omega

theorem run_of_done (filename : String) (done : text.length ≤ s.place.position) :
    run text filename s = .ok s := by
  rw [run, if_neg (Nat.not_lt.2 done)]

theorem run_of_turn {s' : State} (inside : s.place.position < text.length)
    (turned : turn text filename s = .ok s') : run text filename s = run text filename s' := by
  rw [run, if_pos inside]
  split
  · rename_i again
    rw [turned, Except.ok.injEq] at again
    rw [again]
  · rename_i again
    rw [turned] at again
    cases again

/-- All turns together find the items of the text, and end behind it. -/
theorem run_of_drop (filename : String) {cs : List Char}
    (here : text.drop s.place.position = cs) :
    run text filename s = .ok ⟨s.place.past cs,
      s.tokens ++ (Cursor.items ⟨cs, s.place.position, s.place.line⟩).filterMap Item.token?,
      s.errors ++
        (Cursor.items ⟨cs, s.place.position, s.place.line⟩).filterMap (Item.error? filename)⟩ := by
  induction cs using Cursor.items_induction generalizing s with
  | trivia gap trivia =>
    rw [Cursor.items_of_all_trivia trivia]
    simp only [List.filterMap_nil, List.append_nil]
    by_cases done : text.length ≤ s.place.position
    · obtain rfl : gap = [] := by rw [← here, List.drop_eq_nil_iff.2 done]
      rw [run_of_done filename done, s.place.past_nil]
    · have here' : text.drop s.place.position = gap ++ [] := by rw [here, List.append_nil]
      rw [run_of_turn (Nat.not_le.1 done) (turn_of_trivia trivia here)]
      exact run_of_done filename (le_of_drop (drop_past here'))
  | item gap x cs rest trivia stop same ih =>
    have inside : s.place.position < text.length := by
      rw [← Nat.not_le, ← List.drop_eq_nil_iff, here]
      simp
    have behind : text.drop ((s.place.past gap).past (Reading.first x cs).lexeme).position = rest :=
      drop_past ((drop_past here).trans same.symm)
    rw [run_of_turn inside (turn_of_item trivia stop here), ih (by rwa [State.place_keep]),
      Cursor.items_of_trivia trivia, Cursor.items_read stop same, ← same, s.place.past_append,
      Place.past_append]
    cases verdict : (Reading.first x cs).verdict with
    | ok p => simp [outcome, State.keep, Item.token?, Item.error?, verdict, Place.past]
    | error cause => simp [outcome, State.keep, Item.token?, Item.error?, verdict, Place.past]

/-- A guarded scan of a script, with the token of type EOF on the last line. -/
def scan (source : Source) (filename : String) : Except Failure Scanned := do
  let s ← run source.chars filename ⟨⟨0, 1⟩, [], []⟩
  return ⟨s.tokens ++ [.endOn s.place.line], s.errors⟩

/-- No guard ever refuses: on every script the guarded scan ends with the result of the scan. -/
theorem scan_eq_ok (source : Source) (filename : String) :
    scan source filename = .ok (ScriptFront.scan source filename) := by
  rw [scan, run_of_drop filename (s := ⟨⟨0, 1⟩, [], []⟩) rfl, ok_bind, scan_eq]
  rfl

end ScriptFront.Guarded
