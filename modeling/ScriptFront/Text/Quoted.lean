import ScriptFront.Text.Printable

/-!
# Quoted text

A text in quotes, with a backslash before the quote in use and before every backslash. Line feeds,
carriage returns and tabs have letters; any other character that does not print is written by its
code point, in the shortest of three widths. The quotes are single ones unless the text holds a
single quote and no double one.
-/
namespace ScriptFront.Text.Quoted

/-- A lowercase hexadecimal digit. -/
def hexDigit (d : Nat) : Char := if d < 10 then Char.ofNat (48 + d) else Char.ofNat (87 + d)

/-- The last `width` hexadecimal digits of a number. -/
def hex : (width n : Nat) → List Char
  | 0, _ => []
  | width + 1, n => hexDigit (n / Nat.pow 16 width % 16) :: hex width n

/-- How a character is written between two `quote` characters. -/
def escape (printable : Char → Bool) (quote c : Char) : List Char :=
  if c = quote ∨ c = '\\' then ['\\', c]
  else if c = '\n' then ['\\', 'n']
  else if c = '\r' then ['\\', 'r']
  else if c = '\t' then ['\\', 't']
  else if printable c then [c]
  else if c.toNat < 0x100 then '\\' :: 'x' :: hex 2 c.toNat
  else if c.toNat < 0x10000 then '\\' :: 'u' :: hex 4 c.toNat
  else '\\' :: 'U' :: hex 8 c.toNat

def quoteFor (cs : List Char) : Char := if '\'' ∈ cs ∧ '"' ∉ cs then '"' else '\''

/-- The characters of a text in quotes, for a given choice of the characters that print. -/
def charsWith (printable : Char → Bool) (cs : List Char) : List Char :=
  quoteFor cs :: cs.flatMap (escape printable (quoteFor cs)) ++ [quoteFor cs]

def encodeWith (printable : Char → Bool) (text : String) : String :=
  String.ofList (charsWith printable text.toList)

def encode (text : String) : String := encodeWith isPrintable text

end ScriptFront.Text.Quoted
