import ScriptFront.Diagnostic.ParseError

/-!
# Places in a list of tokens

A token cursor is a place in a list of tokens. It moves forward one token at a time and never past
a token of type EOF; where the list has none, it sees one behind the last token.
-/
namespace ScriptFront

structure TokenCursor where
  position : Nat
  rest : List Token
  /-- What is seen behind the last token. -/
  ending : Token
deriving DecidableEq, Repr

namespace TokenCursor

/-- The token seen behind a list: of type EOF, on the line of the last token or on line one. -/
def endingOf (ts : List Token) : Token := .endOn ((ts.getLast?.map Token.line).getD 1)

/-- The place before token number `n` of a list. -/
def place (ts : List Token) (n : Nat) : TokenCursor := ⟨n, ts.drop n, endingOf ts⟩

def ofTokens (ts : List Token) : TokenCursor := place ts 0

def peek (c : TokenCursor) : Token := c.rest.head?.getD c.ending

/-- Whether the token at the cursor is of type EOF. -/
def atEnd (c : TokenCursor) : Bool := c.peek.type == .eof

/-- The place behind the token at the cursor; a token of type EOF is not passed. -/
def advance (c : TokenCursor) : TokenCursor :=
  if c.atEnd then c else ⟨c.position + 1, c.rest.tail, c.ending⟩

def forward (c : TokenCursor) : Nat → TokenCursor
  | 0 => c
  | n + 1 => c.advance.forward n

/-- Whether the token at the cursor has the given type; none has that of EOF. -/
def check (c : TokenCursor) (type : TokenType) : Bool := !c.atEnd && c.peek.type == type

/-- Passes a token of the given type, and gives it; any other token is an error and stays. -/
def consume (c : TokenCursor) (type : TokenType) (message : String) :
    Except ParseError Token × TokenCursor :=
  if c.check type then (.ok c.peek, c.advance)
  else (.error ⟨c.peek, .missingToken type message⟩, c)

theorem peek_place (ts : List Token) (n : Nat) :
    (place ts n).peek = ts[n]?.getD (endingOf ts) := by
  simp [peek, place]

theorem advance_place {ts : List Token} {n : Nat} (h : (place ts n).atEnd = false) :
    (place ts n).advance = place ts (n + 1) := by
  rw [advance, h]
  simp [place]

theorem advance_of_atEnd {c : TokenCursor} (h : c.atEnd = true) : c.advance = c := by
  simp [advance, h]

theorem atEnd_place_of_length_le {ts : List Token} {n : Nat} (h : ts.length ≤ n) :
    (place ts n).atEnd = true := by
  rw [atEnd, peek_place, List.getElem?_eq_none h]
  rfl

end TokenCursor
end ScriptFront
