/-!
# Decimal digits of natural numbers

Digits are characters, most significant first. Reading the digits of a number gives the number
back, and every numeral of the project (lines, whole values, fractions) is written with them.
-/
namespace ScriptFront.Decimal

def digitChar (d : Nat) : Char := Char.ofNat (48 + d)

def digitValue (c : Char) : Nat := c.toNat - 48

/-- The digits of `n` in front of `tail`. -/
def digitsOnto (n : Nat) (tail : List Char) : List Char :=
  if n < 10 then digitChar n :: tail
  else digitsOnto (n / 10) (digitChar (n % 10) :: tail)

/-- The digits of `n` without superfluous zeros; zero is the one digit `0`. -/
def digits (n : Nat) : List Char := digitsOnto n []

/-- The number a digit string denotes; the empty string denotes zero. -/
def ofDigits (ds : List Char) : Nat := ds.foldl (fun n c => 10 * n + digitValue c) 0

/-- The written form of an integer: a minus sign when negative, then its digits. -/
def integer (n : Int) : String :=
  String.ofList (if n < 0 then '-' :: digits n.natAbs else digits n.natAbs)

/-- The exponent of the leading decimal digit of a positive number. -/
def log10 (n : Nat) : Nat := if n < 10 then 0 else log10 (n / 10) + 1

theorem digitValue_digitChar {d : Nat} (h : d < 10) : digitValue (digitChar d) = d := by
  have : ∀ d < 10, digitValue (digitChar d) = d := by decide
  exact this d h

theorem digitsOnto_append (n : Nat) (a b : List Char) :
    digitsOnto n (a ++ b) = digitsOnto n a ++ b := by
  fun_induction digitsOnto n a with
  | case1 n a h => rw [digitsOnto, if_pos h]; rfl
  | case2 n a h ih => rw [digitsOnto, if_neg h, ← List.cons_append, ih]

theorem digitsOnto_eq (n : Nat) (tail : List Char) : digitsOnto n tail = digits n ++ tail :=
  digitsOnto_append n [] tail

@[simp] theorem digits_of_lt {n : Nat} (h : n < 10) : digits n = [digitChar n] := by
  simp [digits, digitsOnto, h]

theorem digits_of_ge {n : Nat} (h : ¬ n < 10) :
    digits n = digits (n / 10) ++ [digitChar (n % 10)] := by
  rw [digits, digitsOnto, if_neg h, digitsOnto_eq]

theorem ofDigits_append (ds : List Char) (c : Char) :
    ofDigits (ds ++ [c]) = 10 * ofDigits ds + digitValue c := by
  simp [ofDigits]

theorem ofDigits_digits (n : Nat) : ofDigits (digits n) = n := by
  induction n using Nat.strongRecOn with
  | _ n ih =>
    by_cases h : n < 10
    · simp [h, ofDigits, digitValue_digitChar h]
    · rw [digits_of_ge h, ofDigits_append, ih (n / 10) (by omega),
        digitValue_digitChar (Nat.mod_lt _ (by decide))]
      omega

end ScriptFront.Decimal
