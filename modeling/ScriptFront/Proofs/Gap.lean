import ScriptFront.Proofs.Lines
import ScriptFront.Proofs.Lookahead

/-!
# Gaps between tokens

What lies between two tokens is blanks and comments, and which ones makes no difference. A scan of
what stands before the gap is decided there, for a blank ends what is read; and a scan of what
stands behind it depends on the line only. So another gap leaves the first part as it is and moves
the lines of the second one.
-/
namespace ScriptFront

/-- Blanks and comments, each comment with the line feed that ends it. -/
inductive ClosedTrivia : List Char → Prop
  | none : ClosedTrivia []
  | blank {x : Char} {gap : List Char} (blank : x ∈ [' ', '\t', '\r', '\n'])
      (more : ClosedTrivia gap) : ClosedTrivia (x :: gap)
  | comment {body gap : List Char} (oneLine : '\n' ∉ body) (more : ClosedTrivia gap) :
      ClosedTrivia ('/' :: '/' :: (body ++ '\n' :: gap))

/-- A gap that keeps whatever stands around it apart. -/
structure Separator (gap : List Char) : Prop where
  blank : ∃ x ∈ gap.head?, x ∈ [' ', '\t', '\r', '\n']
  closed : ClosedTrivia gap

theorem ClosedTrivia.trivia {gap : List Char} (h : ClosedTrivia gap) (rest : List Char) :
    Trivia gap rest := by
  induction h with
  | none => exact .none
  | blank blank _ ih => exact .blank blank ih
  | comment oneLine _ ih => exact .comment oneLine (by simp) (.blank (by simp) ih)

theorem Separator.head_blank {gap : List Char} (h : Separator gap) (rest : List Char) :
    ∀ x ∈ (gap ++ rest).head?, x ∈ [' ', '\t', '\r', '\n'] := by
  obtain ⟨x, head, blank⟩ := h.blank
  intro y mem
  rw [List.head?_append, Option.mem_def.1 head, Option.some_or] at mem
  obtain rfl := Option.some.inj mem
  exact blank

namespace Cursor

/-- The first item is read behind trivia, and the others behind it. -/
theorem exists_of_items_cons {text : List Char} {position : Nat} {line : Int} {i : Item}
    {is : List Item} (found : items ⟨text, position, line⟩ = i :: is) :
    ∃ gap r rest, text = gap ++ (r.lexeme ++ rest) ∧ Trivia gap (r.lexeme ++ rest) ∧ r.Stands rest ∧
      i = ⟨position + gap.length, line + gap.count '\n', r⟩ ∧
      is = items ⟨rest, position + (gap ++ r.lexeme).length,
        line + (gap ++ r.lexeme).count '\n'⟩ := by
  induction text using standing_induction with
  | trivia gap hgap => simp [items_of_all_trivia hgap] at found
  | item gap r rest hgap stands =>
    rw [items_of_stands hgap stands] at found
    obtain ⟨rfl, rfl⟩ := List.cons.inj found
    exact ⟨gap, r, rest, rfl, hgap, stands, rfl, rfl⟩

/-- An item stands at its place behind the items before it. Those are the same in front of any other
text that leaves every reading as it stands. -/
theorem items_front {u rest : List Char} {position : Nat} {line : Int}
    {before others : List Item} {p : Item}
    (found : items ⟨u ++ rest, position, line⟩ = before ++ p :: others)
    (start : p.start = position + u.length) :
    (∃ tail, rest = p.reading.lexeme ++ tail ∧ p.reading.Stands tail ∧
      p.line = line + u.count '\n' ∧
      others = items ⟨tail, p.stop, p.line + p.reading.lexeme.count '\n'⟩) ∧
    ∀ rest', (∀ (r : Reading) (same : List Char),
        r.Stands (same ++ rest) → r.Stands (same ++ rest')) →
      items ⟨u ++ rest', position, line⟩ =
        before ++ items ⟨rest', position + u.length, line + u.count '\n'⟩ := by
  induction before generalizing u position line with
  | nil =>
    obtain ⟨gap, r, tail, text, hgap, stands, rfl, rfl⟩ := exists_of_items_cons found
    have length : u.length = gap.length := Nat.add_left_cancel start.symm
    obtain ⟨rfl, rfl⟩ := List.append_inj text length
    refine ⟨⟨tail, rfl, stands, rfl, ?_⟩, fun rest' _ => ?_⟩
    · rw [Item.stop, List.length_append, List.count_append, Int.natCast_add, Nat.add_assoc,
        Int.add_assoc]
    · exact items_of_trivia (stands.trivia hgap rest') _ _
  | cons i before ih =>
    obtain ⟨gap, r, tail, text, hgap, stands, rfl, behind⟩ := exists_of_items_cons found
    -- The item ends before the last one starts, and so inside `u`.
    have later : position + (gap ++ r.lexeme).length ≤ p.start := by
      apply start_ge_of_mem_items
      rw [← behind]
      simp
    have short : (gap ++ r.lexeme).length ≤ u.length := by omega
    rw [← List.append_assoc] at text
    obtain ⟨inner, rfl⟩ : gap ++ r.lexeme <+: u :=
      List.prefix_of_prefix_length_le ⟨tail, text.symm⟩ (List.prefix_append u rest) short
    obtain rfl : inner ++ rest = tail :=
      List.append_cancel_left ((List.append_assoc _ _ _).symm.trans text)
    obtain ⟨here, front⟩ := ih behind.symm (by rw [start, List.length_append, Nat.add_assoc])
    rw [List.length_append, List.count_append, Int.natCast_add, ← Nat.add_assoc, ← Int.add_assoc]
    refine ⟨here, fun rest' keep => ?_⟩
    rw [List.append_assoc, List.append_assoc,
      items_of_stands (stands.trivia hgap _) (keep r inner stands), front rest' keep]
    rfl

/-- Up to the end of an item the items are the same where a blank follows it. Only an item that is
no token may depend on what follows at once. -/
theorem items_cut {u rest rest' : List Char} {position : Nat} {line : Int}
    {before others : List Item} {p : Item}
    (found : items ⟨u ++ rest, position, line⟩ = before ++ p :: others)
    (stop : p.stop = position + u.length)
    (blank : ∀ x ∈ rest'.head?, x ∈ [' ', '\t', '\r', '\n'])
    (cut : (∃ q, p.reading.verdict = .ok q) ∨ EndsLine rest') :
    others = items ⟨rest, position + u.length, line + u.count '\n'⟩ ∧
      items ⟨u ++ rest', position, line⟩ =
        before ++ p :: items ⟨rest', position + u.length, line + u.count '\n'⟩ := by
  have ahead : position ≤ p.start := start_ge_of_mem_items (by rw [found]; simp)
  obtain ⟨front, back, rfl, place⟩ : ∃ front back, u = front ++ back ∧
      p.start = position + front.length := by
    refine ⟨_, _, (List.take_append_drop (p.start - position) u).symm, ?_⟩
    rw [Item.stop] at stop
    rw [List.length_take]
    omega
  rw [List.append_assoc] at found ⊢
  obtain ⟨⟨tail, text, stands, here, behind⟩, others⟩ := items_front found place
  have length : back.length = p.reading.lexeme.length := by
    rw [Item.stop, place, List.length_append] at stop
    omega
  obtain ⟨rfl, rfl⟩ := List.append_inj text length
  have stands' : p.reading.Stands rest' := by
    rw [← List.nil_append rest] at stands
    apply stands.congr_behind (.inr blank)
    intro _ content verdict
    exact cut.resolve_left (by simp [verdict])
  have lines : line + (front ++ p.reading.lexeme).count '\n' =
      p.line + p.reading.lexeme.count '\n' := by
    rw [here, List.count_append, Int.natCast_add, Int.add_assoc]
  rw [lines, ← stop, behind]
  refine ⟨rfl, ?_⟩
  rw [others, stands'.items_eq, ← here, ← place, Item.stop]
  intro r same before
  rw [← List.append_assoc] at before ⊢
  apply before.congr_behind (.inr blank)
  intro none
  exact absurd (List.append_eq_nil_iff.1 none).2 stands.munch.lexeme_ne_nil

/-- What lies before the first item, as far as its start, is trivia, and so is a text without items.
-/
theorem trivia_of_items {gap rest : List Char} {position : Nat} {line : Int} {is : List Item}
    (found : items ⟨gap ++ rest, position, line⟩ = is)
    (next : ∀ i ∈ is.head?, i.start = position + gap.length) (last : is = [] → rest = []) :
    Trivia gap rest := by
  cases is with
  | nil =>
    obtain rfl := last rfl
    rw [List.append_nil] at found
    induction gap using standing_induction with
    | trivia gap hgap => exact hgap
    | item gap r rest hgap stands =>
      rw [items_of_stands hgap stands] at found
      exact absurd found (List.cons_ne_nil _ _)
  | cons i is =>
    obtain ⟨gap', r, tail, text, trivia, -, rfl, -⟩ := exists_of_items_cons found
    have start : position + gap'.length = position + gap.length := next _ rfl
    obtain ⟨rfl, rfl⟩ := List.append_inj text (Nat.add_left_cancel start.symm)
    exact trivia

/-- With a separator in the place of the gap behind a token, the items up to there are the same, and
what is found behind it is the same on other lines. -/
theorem items_replace_gap {u g h v : List Char} {position : Nat} {line : Int}
    {before behind : List Item} {p : Item}
    (found : items ⟨u ++ (g ++ v), position, line⟩ = before ++ p :: behind)
    (token : ∃ r, p.reading.verdict = .ok r) (stop : p.stop = position + u.length)
    (next : ∀ i ∈ behind.head?, i.start = position + u.length + g.length)
    (last : behind = [] → v = []) (separator : Separator h) :
    ∃ behind', items ⟨u ++ (h ++ v), position, line⟩ = before ++ p :: behind' ∧
      behind'.filterMap Item.token? = (behind.filterMap Item.token?).map
        (Token.lowered (h.count '\n' - g.count '\n')) ∧
      ∀ filename, behind'.filterMap (Item.error? filename) =
        (behind.filterMap (Item.error? filename)).map
          (ScanError.lowered (h.count '\n' - g.count '\n')) := by
  obtain ⟨others, cut⟩ := items_cut found stop (separator.head_blank v) (.inl token)
  have trivia := trivia_of_items others.symm next last
  rw [items_of_trivia trivia] at others
  rw [items_of_trivia (separator.closed.trivia v)] at cut
  have moved : line + u.count '\n' + h.count '\n' - (line + u.count '\n' + g.count '\n') =
      (h.count '\n' - g.count '\n' : Int) := by omega
  refine ⟨_, cut, ?_, ?_⟩
  · rw [others, ← moved]
    exact tokens_lowered v _ _ _ _
  · intro filename
    rw [others, ← moved]
    exact errors_lowered filename v _ _ _ _

end Cursor

theorem Item.exists_verdict {filename : String} {i : Item}
    (h : (i.span filename).token?.isSome = true) : ∃ r, i.reading.verdict = .ok r := by
  cases verdict : i.reading.verdict with
  | ok r => exact ⟨r, rfl⟩
  | error cause => simp [span, Span.token?, verdict] at h

def lineFeeds (text : String) : Int := text.toList.count '\n'

theorem lineFeeds_append (a b : String) : lineFeeds (a ++ b) = lineFeeds a + lineFeeds b := by
  simp [lineFeeds]

/-- With another text in the place of `g` the end of the script moves with everything behind it. -/
theorem endOn_lowered (u g h v : String) : Token.endOn (1 + lineFeeds (u ++ h ++ v)) =
    (Token.endOn (1 + lineFeeds (u ++ g ++ v))).lowered (lineFeeds h - lineFeeds g) := by
  simp only [Token.endOn, Token.lowered, lineFeeds_append]
  congr 1
  omega

/-- The gap behind a token, up to what is found next or to the end of the text, may be replaced by
any separator. Everything found up to the gap is found again; and so is everything behind it, on
lines that are moved by the line feeds that the separator has more than the gap. -/
theorem scan_replace_gap {u g v filename : String} {before behind : List Span} {p : Span}
    (found : (Source.text (u ++ g ++ v)).spans filename = before ++ p :: behind)
    (token : p.token?.isSome = true) (stop : p.stop = u.length)
    (next : ∀ q ∈ behind.head?, q.start = u.length + g.length) (last : behind = [] → v = "")
    {h : String} (separator : Separator h.toList) :
    Span.Account (.text (u ++ g ++ v)) filename (before ++ p :: behind) ∧
    scan (.text (u ++ h ++ v)) filename =
      ⟨(before ++ [p]).filterMap Span.token? ++
          (behind.filterMap Span.token? ++ [Token.endOn (1 + lineFeeds (u ++ g ++ v))]).map
            (Token.lowered (lineFeeds h - lineFeeds g)),
        (before ++ [p]).filterMap Span.error? ++
          (behind.filterMap Span.error?).map (ScanError.lowered (lineFeeds h - lineFeeds g))⟩ := by
  have account := Source.account_spans (.text (u ++ g ++ v)) filename
  rw [found] at account
  refine ⟨account, ?_⟩
  have chars (gap : String) : (Source.text (u ++ gap ++ v)).chars =
      u.toList ++ (gap.toList ++ v.toList) := by
    simp [Source.chars]
  rw [Source.spans, chars, List.map_eq_append_iff] at found
  obtain ⟨before, others, items, rfl, spans⟩ := found
  obtain ⟨p, behind, rfl, rfl, rfl⟩ := List.map_eq_cons_iff.1 spans
  have stop' : p.stop = 0 + u.toList.length := by
    rw [Nat.zero_add, String.length_toList]
    exact stop
  have next' : ∀ i ∈ behind.head?, i.start = 0 + u.toList.length + g.toList.length := by
    intro i mem
    rw [Nat.zero_add, String.length_toList, String.length_toList]
    apply next (i.span filename)
    rw [List.head?_map, Option.mem_def.1 mem]
    rfl
  have last' : behind = [] → v.toList = [] := by
    rintro rfl
    rw [last rfl]
    rfl
  obtain ⟨behind', replaced, tokens, errors⟩ :=
    Cursor.items_replace_gap items (Item.exists_verdict token) stop' next' last' separator
  have up : before.map (Item.span filename) ++ [p.span filename] =
      (before ++ [p]).map (Item.span filename) := by simp
  have total : ((u.toList ++ (h.toList ++ v.toList)).count '\n' : Int) =
      lineFeeds (u ++ h ++ v) := by
    rw [← chars]
    rfl
  rw [up, filterMap_token?_span, filterMap_token?_span, filterMap_error?_span,
    filterMap_error?_span, scan_eq, chars, Cursor.start, replaced, total,
    endOn_lowered u g h v, List.append_cons before p behind']
  simp only [List.filterMap_append, tokens, errors, List.map_append, List.append_assoc]
  rfl

/-- A comment between a name and the slash that stood right behind it. -/
theorem scan_comment_before_slash :
    (Source.text ("#a" ++ "" ++ "/b")).spans "" =
      [⟨0, 1, .error ⟨.unexpectedCharacter '#', 1, some ""⟩⟩] ++
        ⟨1, 2, .ok ⟨.identifier, "a", .null, 1⟩⟩ ::
          [⟨2, 3, .ok ⟨.slash, "/", .null, 1⟩⟩, ⟨3, 4, .ok ⟨.identifier, "b", .null, 1⟩⟩] ∧
    Separator " // c\n".toList ∧
    scan (.text ("#a" ++ " // c\n" ++ "/b")) "" =
      ⟨[⟨.identifier, "a", .null, 1⟩, ⟨.slash, "/", .null, 2⟩, ⟨.identifier, "b", .null, 2⟩,
        .endOn 2], [⟨.unexpectedCharacter '#', 1, some ""⟩]⟩ := by
  have found : (Source.text ("#a" ++ "" ++ "/b")).spans "" =
      [⟨0, 1, .error ⟨.unexpectedCharacter '#', 1, some ""⟩⟩] ++
        ⟨1, 2, .ok ⟨.identifier, "a", .null, 1⟩⟩ ::
          [⟨2, 3, .ok ⟨.slash, "/", .null, 1⟩⟩, ⟨3, 4, .ok ⟨.identifier, "b", .null, 1⟩⟩] := by
    with_unfolding_all rfl
  have comment : ClosedTrivia ('/' :: '/' :: ([' ', 'c'] ++ '\n' :: [])) :=
    .comment (by decide) .none
  have separator : Separator " // c\n".toList :=
    ⟨⟨' ', rfl, by decide⟩, .blank (by decide) comment⟩
  have next : ∀ q ∈ List.head? [Span.mk 2 3 (.ok ⟨.slash, "/", .null, 1⟩),
      ⟨3, 4, .ok ⟨.identifier, "b", .null, 1⟩⟩], q.start = "#a".length + "".length := by
    rintro _ ⟨⟩
    rfl
  have replaced := scan_replace_gap found rfl rfl next (by simp) separator
  exact ⟨found, separator, replaced.2.trans (by decide)⟩

end ScriptFront
