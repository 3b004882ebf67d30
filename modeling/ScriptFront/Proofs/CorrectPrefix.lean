import ScriptFront.Proofs.Grammar
import ScriptFront.Proofs.Yield

/-!
# The earliest error

An expression is a run of openers, a value and a right parenthesis for each left one. So a list of
tokens can be completed to an expression as long as it goes that way, and nothing completes it once
it does not. Reading stops at the first token after which nothing can.
-/
namespace ScriptFront

/-- The types of token that are an expression by themselves. -/
def valueTypes : List TokenType :=
  [.number, .string, .keyword .trueWord, .keyword .falseWord, .keyword .nilWord]

/-- A token that is an expression by itself, whatever literal it carries. -/
def Token.IsValue (t : Token) : Prop := t.type ∈ valueTypes

instance (t : Token) : Decidable t.IsValue := inferInstanceAs (Decidable (t.type ∈ valueTypes))

/-- `IsExpression ts`: the types of the tokens `ts` are those of an expression. -/
inductive IsExpression : List Token → Prop
  | value {t : Token} (stands : t.IsValue) : IsExpression [t]
  | unary {operator : Token} {ts : List Token}
      (sign : operator.type = .bang ∨ operator.type = .minus) (operand : IsExpression ts) :
      IsExpression (operator :: ts)
  | grouping {left right : Token} {ts : List Token} (opens : left.type = .leftParen)
      (inner : IsExpression ts) (closes : right.type = .rightParen) :
      IsExpression (left :: (ts ++ [right]))

theorem Token.Denotes.isValue {t : Token} {value : Atom} (h : t.Denotes value) : t.IsValue := by
  cases h with
  | number type | string type | true type | false type | nil type =>
    simp [IsValue, valueTypes, type]

theorem Token.Carries.exists_denotes {t : Token} (carries : t.Carries) (h : t.IsValue) :
    ∃ value, t.Denotes value := by
  simp only [IsValue, valueTypes, List.mem_cons, List.not_mem_nil, or_false] at h
  rcases h with type | type | type | type | type
  · obtain ⟨x, held⟩ := carries.number type
    exact ⟨_, .number type held⟩
  · obtain ⟨s, held⟩ := carries.string type
    exact ⟨_, .string type held⟩
  · exact ⟨_, .true type⟩
  · exact ⟨_, .false type⟩
  · exact ⟨_, .nil type⟩

/-- Where tokens carry what they promise, the types alone decide whether there is a tree. -/
theorem isExpression_iff_exists_derives {ts : List Token} (carried : ∀ t ∈ ts, t.Carries) :
    IsExpression ts ↔ ∃ e, Derives ts e := by
  constructor
  · intro h
    induction h with
    | value stands =>
      obtain ⟨value, denotes⟩ := (carried _ List.mem_cons_self).exists_denotes stands
      exact ⟨.literal value 0, .literal denotes⟩
    | @unary operator ts sign _ ih =>
      obtain ⟨e, derives⟩ := ih fun t mem => carried t (List.mem_cons_of_mem _ mem)
      exact ⟨.unary operator e 0, .unary sign derives⟩
    | grouping opens _ closes ih =>
      obtain ⟨e, derives⟩ := ih fun t mem => carried t (by simp [mem])
      exact ⟨.grouping e 0, .grouping opens derives closes⟩
  · rintro ⟨e, derives⟩
    clear carried
    induction derives with
    | literal denotes => exact .value denotes.isValue
    | unary sign _ ih => exact .unary sign ih
    | grouping opens _ closes ih => exact .grouping opens ih closes

/-- An expression is a value in a chain without a missing parenthesis. -/
theorem isExpression_iff {ts : List Token} : IsExpression ts ↔
    ∃ openers value closers, ts = openers ++ value :: closers ∧ Chain openers closers ∧
      value.IsValue ∧ closers.length = countType .leftParen openers := by
  constructor
  · intro h
    induction h with
    | @value t stands => exact ⟨[], t, [], rfl, ⟨by simp, by simp⟩, stands, rfl⟩
    | @unary operator ts sign _ ih =>
      obtain ⟨openers, value, closers, rfl, chain, stands, even⟩ := ih
      refine ⟨operator :: openers, value, closers, rfl, ⟨?_, chain.closes⟩, stands, ?_⟩
      · exact List.forall_mem_cons.2 ⟨Token.isOpener_of_sign sign, chain.opens⟩
      · have noParen : operator.type ≠ .leftParen := by
          rcases sign with sign | sign <;> simp [sign]
        rw [countType_cons, if_neg noParen, even, Nat.add_zero]
    | @grouping left right ts opens _ closes ih =>
      obtain ⟨openers, value, closers, rfl, chain, stands, even⟩ := ih
      refine ⟨left :: openers, value, closers ++ [right], by simp, ⟨?_, ?_⟩, stands, ?_⟩
      · exact List.forall_mem_cons.2 ⟨Token.isOpener_of_leftParen opens, chain.opens⟩
      · exact List.forall_mem_append.2 ⟨chain.closes, by simpa using closes⟩
      · rw [countType_cons, if_pos opens, List.length_append, even, List.length_singleton]
  · rintro ⟨openers, value, closers, rfl, chain, stands, even⟩
    induction openers generalizing closers with
    | nil =>
      obtain rfl := List.eq_nil_of_length_eq_zero even
      exact .value stands
    | cons t openers ih =>
      obtain ⟨opener, opens⟩ := List.forall_mem_cons.1 chain.opens
      rw [Token.isOpener_iff, ← or_assoc] at opener
      rw [countType_cons] at even
      rcases opener with sign | left
      · have noParen : t.type ≠ .leftParen := by
          rcases sign with sign | sign <;> simp [sign]
        rw [if_neg noParen] at even
        exact .unary sign (ih closers ⟨opens, chain.closes⟩ even)
      · -- The last right parenthesis is that of the outermost grouping.
        rw [if_pos left] at even
        rcases List.eq_nil_or_concat closers with rfl | ⟨inner, right, rfl⟩
        · simp at even
        · rw [List.concat_eq_append] at even chain ⊢
          obtain ⟨closes, last⟩ := List.forall_mem_append.1 chain.closes
          rw [List.length_append, List.length_singleton, Nat.add_right_cancel_iff] at even
          have within := ih inner ⟨opens, closes⟩ even
          have whole := IsExpression.grouping left within (last right List.mem_cons_self)
          simpa using whole

/-- The right parentheses that are missing complete a chain around a value. -/
theorem Chain.exists_isExpression {openers closers : List Token} (chain : Chain openers closers)
    {value : Token} (stands : value.IsValue)
    (enough : closers.length ≤ countType .leftParen openers) :
    ∃ more, IsExpression (openers ++ value :: (closers ++ more)) := by
  refine ⟨List.replicate (countType .leftParen openers - closers.length)
    ⟨.rightParen, ")", .null, 1⟩, ?_⟩
  rw [isExpression_iff]
  refine ⟨openers, value, _, rfl, ⟨chain.opens, ?_⟩, stands, ?_⟩
  · refine List.forall_mem_append.2 ⟨chain.closes, ?_⟩
    intro t mem
    rw [List.eq_of_mem_replicate mem]
  · rw [List.length_append, List.length_replicate, Nat.add_sub_cancel' enough]

/-- `Stuck passed refused cause`: the tokens `passed` go the way of an expression and the token
`refused` does not. It takes the place of a value, or of a right parenthesis. -/
inductive Stuck : List Token → Token → ParseError.Cause → Prop
  | value {openers : List Token} {refused : Token} (chain : Chain openers [])
      (noOpener : refused.isOpener = false) (noValue : ¬refused.IsValue) :
      Stuck openers refused .expectedExpression
  | closer {openers closers : List Token} {value refused : Token} (chain : Chain openers closers)
      (stands : value.IsValue) (unclosed : closers.length < countType .leftParen openers)
      (noCloser : refused.type ≠ .rightParen) :
      Stuck (openers ++ value :: closers) refused (.missingToken .rightParen Expr.closingMessage)

theorem Token.isOpener_of_isValue {t : Token} (h : t.IsValue) : t.isOpener = false := by
  rw [← Bool.not_eq_true, isOpener_iff]
  rintro (type | type | type) <;> simp [IsValue, valueTypes, type] at h

theorem Chain.not_isValue_opener {openers closers : List Token} (chain : Chain openers closers) :
    ∀ t ∈ openers, ¬t.IsValue := by
  intro t mem stands
  have opener := chain.opens t mem
  rw [Token.isOpener_of_isValue stands] at opener
  cases opener

theorem Chain.not_isValue_closer {openers closers : List Token} (chain : Chain openers closers) :
    ∀ t ∈ closers, ¬t.IsValue := by
  intro t mem
  simp [Token.IsValue, valueTypes, chain.closes t mem]

theorem ParseError.codes_apart : expressionCode ≠ tokenCode := by decide

/-- The openers at the head of a list are told from what follows them. -/
theorem openers_unique {openers openers' rest rest' : List Token} {t t' : Token}
    (opens : ∀ t ∈ openers, t.isOpener = true) (opens' : ∀ t ∈ openers', t.isOpener = true)
    (stops : t.isOpener = false) (stops' : t'.isOpener = false)
    (same : openers ++ t :: rest = openers' ++ t' :: rest') :
    openers = openers' ∧ t = t' ∧ rest = rest' := by
  have found := congrArg (List.takeWhile Token.isOpener) same
  rw [List.takeWhile_append_of_pos opens, List.takeWhile_append_of_pos opens',
    List.takeWhile_cons_of_neg (by simp [stops]), List.takeWhile_cons_of_neg (by simp [stops']),
    List.append_nil, List.append_nil] at found
  subst found
  exact ⟨rfl, List.cons.inj (List.append_cancel_left same)⟩

namespace Stuck

variable {passed : List Token} {refused : Token} {cause : ParseError.Cause}

theorem completable (h : Stuck passed refused cause) : ∃ more, IsExpression (passed ++ more) := by
  cases h with
  | value chain =>
    have stands : Token.IsValue ⟨.keyword .nilWord, "nil", .null, 1⟩ := by decide
    obtain ⟨more, whole⟩ := chain.exists_isExpression stands (Nat.zero_le _)
    exact ⟨_, whole⟩
  | closer chain stands unclosed =>
    obtain ⟨more, whole⟩ := chain.exists_isExpression stands (Nat.le_of_lt unclosed)
    exact ⟨more, by simpa using whole⟩

theorem not_isExpression (h : Stuck passed refused cause) {others ts : List Token}
    (head : ts <+: passed ++ refused :: others) : ¬IsExpression ts := by
  intro whole
  obtain ⟨openers', value', closers', rfl, chain', stands', even⟩ := isExpression_iff.1 whole
  have noOpener' := Token.isOpener_of_isValue stands'
  obtain ⟨tail, same⟩ := head
  rw [List.append_assoc, List.cons_append] at same
  cases h with
  | value chain noOpener noValue =>
    obtain ⟨-, rfl, -⟩ := openers_unique chain'.opens chain.opens noOpener' noOpener same
    exact noValue stands'
  | @closer openers closers value _ chain stands unclosed noCloser =>
    rw [List.append_assoc, List.cons_append] at same
    obtain ⟨rfl, rfl, behind⟩ := openers_unique chain'.opens chain.opens noOpener'
      (Token.isOpener_of_isValue stands) same
    -- The right parentheses end where the refused token stands, so they are too few.
    have few : closers'.length ≤ closers.length := by
      rcases List.append_eq_append_iff.1 behind with ⟨more, rfl, -⟩ | ⟨more, rfl, split⟩
      · rw [List.length_append]
        exact Nat.le_add_right _ _
      · cases more with
        | nil => simp
        | cons t more =>
          obtain ⟨rfl, -⟩ := List.cons.inj split
          exact absurd (chain'.closes refused (by simp)) noCloser
    omega

/-- What was passed holds no value just where a value is missing. -/
theorem code_eq_expression_iff (h : Stuck passed refused cause) :
    ParseError.code? ⟨refused, cause⟩ = some ParseError.expressionCode ↔
      ∀ t ∈ passed, ¬t.IsValue := by
  cases h with
  | value chain =>
    exact iff_of_true rfl chain.not_isValue_opener
  | closer chain stands =>
    refine iff_of_false (by simp [ParseError.code?, ParseError.codes_apart.symm]) ?_
    intro none
    exact none _ (by simp) stands

end Stuck

/-- One value in a list of tokens, with fewer right parentheses behind it than left ones before. -/
def Unclosed (ts : List Token) : Prop :=
  ∃ before value behind, ts = before ++ value :: behind ∧ value.IsValue ∧
    (∀ t ∈ before ++ behind, ¬t.IsValue) ∧
    countType .rightParen behind < countType .leftParen before

/-- What was passed is unclosed just where a right parenthesis is missing. -/
theorem Stuck.code_eq_token_iff {passed : List Token} {refused : Token} {cause : ParseError.Cause}
    (h : Stuck passed refused cause) :
    ParseError.code? ⟨refused, cause⟩ = some ParseError.tokenCode ↔ Unclosed passed := by
  have noValue := h.code_eq_expression_iff
  cases h with
  | value chain =>
    refine iff_of_false (by simp [ParseError.code?, ParseError.codes_apart]) ?_
    rintro ⟨before, value, behind, rfl, stands, -⟩
    exact noValue.1 rfl value (by simp) stands
  | @closer openers closers value _ chain stands unclosed =>
    refine iff_of_true rfl ⟨openers, value, closers, rfl, stands, ?_, ?_⟩
    · exact List.forall_mem_append.2 ⟨chain.not_isValue_opener, chain.not_isValue_closer⟩
    · have all : countType .rightParen closers = closers.length := by
        rw [countType, List.countP_eq_length]
        intro t mem
        rw [chain.closes t mem]
        rfl
      rwa [all]

namespace Expr

theorem isValue_iff (t : Token) : t.IsValue ↔ (atomOf? t).isSome = true := by
  unfold atomOf?
  split <;> simp_all [Token.IsValue, valueTypes]

/-- `Refused passed c failure`: with the tokens `passed` behind it, the reader fails at `c`. Either
the token there does not go on with what was passed, or the literal of the last one passed is not
what its token asks for. -/
inductive Refused : List Token → TokenCursor → ReadError → Prop
  | parse {passed : List Token} {c : TokenCursor} {e : ParseError} (points : e.token = c.peek)
      (stuck : Stuck passed c.peek e.cause) : Refused passed c (.parse e)
  | literal {before : List Token} {t : Token} {c : TokenCursor} {e : LiteralError}
      (held : atomOf? t = some (.error e)) : Refused (before ++ [t]) c (.literal e)

theorem refused_of_read {ending : Token} (last : ending.type = .eof) {position : Nat}
    {rest : List Token} {failure : ReadError} {c : TokenCursor}
    (h : read ⟨position, rest, ending⟩ = (.error failure, c)) :
    ∃ passed behind, rest = passed ++ behind ∧ c = ⟨position + passed.length, behind, ending⟩ ∧
      Refused passed c failure := by
  obtain ⟨passed, behind, split, place, yields⟩ :=
    yields_of_read (c := ⟨position, rest, ending⟩) last
  rw [h] at place yields
  refine ⟨passed, behind, split, place, ?_⟩
  generalize seen : TokenCursor.peek _ = next at yields
  cases yields with
  | badLiteral opens held => exact .literal held
  | noValue opens noOpener noAtom =>
    have noValue : ¬next.IsValue := by simp [isValue_iff, noAtom]
    rw [← seen] at noOpener noValue ⊢
    exact .parse rfl (.value ⟨opens, by simp⟩ noOpener noValue)
  | @noCloser openers closers value _ atom chain held few other =>
    have stands : value.IsValue := by simp [isValue_iff, held]
    rw [← seen] at other ⊢
    exact .parse rfl (.closer chain stands few other)

/-- From place `start` on, the tokens up to place `stop` are the longest way an expression can go,
and `e` points at the next one. -/
structure EarliestError (ts : List Token) (start stop : Nat) (e : ParseError) : Prop where
  token : e.token = ts[stop]?.getD (TokenCursor.endingOf ts)
  line : e.diagnostic.line = e.token.line
  completable : ∃ more, IsExpression (ts.extract start stop ++ more)
  incurable : ∀ others head, head <+: ts.extract start stop ++ e.token :: others →
    ¬IsExpression head
  expression : e.code? = some ParseError.expressionCode ↔ ∀ t ∈ ts.extract start stop, ¬t.IsValue
  missing : e.code? = some ParseError.tokenCode ↔ Unclosed (ts.extract start stop)

/-- The reader reports the earliest error there is. From every place of every list of tokens, the
tokens it passes can be completed to an expression, and with the token it points at they cannot. -/
theorem read_error_earliest {ts : List Token} {start : Nat} {e : ParseError} {c : TokenCursor}
    (h : read (.place ts start) = (.error (.parse e), c)) :
    ∃ stop, start ≤ stop ∧ c = .place ts stop ∧ EarliestError ts start stop e := by
  obtain ⟨passed, behind, split, rfl, refused⟩ := refused_of_read rfl h
  cases refused with
  | parse points stuck =>
    rw [place_behind split] at points stuck ⊢
    rw [← points] at stuck
    refine ⟨start + passed.length, Nat.le_add_right _ _, rfl, ?_⟩
    rw [TokenCursor.peek_place] at points
    have here : ts.extract start (start + passed.length) = passed := extract_of_drop split
    constructor
    · exact points
    · rfl
    · rw [here]
      exact stuck.completable
    · intro others head
      rw [here]
      exact stuck.not_isExpression
    · rw [here]
      exact stuck.code_eq_expression_iff
    · rw [here]
      exact stuck.code_eq_token_iff

/-- A grouping under an operator, behind another token, that a word cuts off. -/
def cutGrouping : List Token :=
  [⟨.semicolon, ";", .null, 1⟩, ⟨.minus, "-", .null, 1⟩, ⟨.leftParen, "(", .null, 2⟩,
    ⟨.number, "2", .int 2, 2⟩, ⟨.identifier, "x", .null, 3⟩]

/-- The word is where the right parenthesis is missing, on its own line. -/
theorem read_error_cutGrouping :
    read (.place cutGrouping 1) = (.error (.parse ⟨⟨.identifier, "x", .null, 3⟩,
      .missingToken .rightParen closingMessage⟩), .place cutGrouping 4) ∧
    ∃ stop, 1 ≤ stop ∧ TokenCursor.place cutGrouping 4 = .place cutGrouping stop ∧
      EarliestError cutGrouping 1 stop
        ⟨⟨.identifier, "x", .null, 3⟩, .missingToken .rightParen closingMessage⟩ := by
  have fails : read (.place cutGrouping 1) = (.error (.parse ⟨⟨.identifier, "x", .null, 3⟩,
      .missingToken .rightParen closingMessage⟩), .place cutGrouping 4) := by
    decide +kernel
  exact ⟨fails, read_error_earliest fails⟩

end Expr

end ScriptFront
