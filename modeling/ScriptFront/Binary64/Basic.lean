/-!
# Doubles

A finite double is a sign and a rank: the place of its absolute value among all finite absolute
values in increasing order, so rank zero is zero and rank one is the smallest subnormal. The rank
is also what the low 63 bits of the encoding hold. Every finite absolute value is a whole number
of units of 2⁻¹⁰⁷⁴, its magnitude, which keeps all arithmetic on natural numbers.
-/
namespace ScriptFront

/-- The number of fractions that share an exponent: 2⁵². -/
def fractionCount : Nat := Nat.pow 2 52

/-- The number of finite absolute values: 2047 exponents with their fractions. -/
def rankBound : Nat := 2047 * fractionCount

/-- A double. There is one NaN. -/
inductive Binary64
  | nan
  | infinity (negative : Bool)
  | finite (negative : Bool) (rank : Fin rankBound)
deriving DecidableEq, Repr

namespace Binary64

/-- The units of 2⁻¹⁰⁷⁴ that make up one. -/
def unitsPerOne : Nat := Nat.pow 2 1074

/-- The absolute value of a rank in units of 2⁻¹⁰⁷⁴: fractions alone below 2⁵², and above that
a leading one and a fraction, scaled by the exponent. -/
def magnitude (rank : Nat) : Nat :=
  if rank < fractionCount then rank
  else (fractionCount + rank % fractionCount) * Nat.pow 2 (rank / fractionCount - 1)

def negate : Binary64 → Binary64
  | nan => nan
  | infinity negative => infinity (!negative)
  | finite negative rank => finite (!negative) rank

/-- The highest of 64 bits, which is set for negative doubles: 2⁶³. -/
def signBit : Nat := Nat.pow 2 63

/-- The double of a sign and the 63 bits below it: infinity follows the highest rank, and every
pattern beyond infinity is the one NaN. -/
def ofParts (negative : Bool) (rank : Nat) : Binary64 :=
  if h : rank < rankBound then finite negative ⟨rank, h⟩
  else if rank = rankBound then infinity negative
  else nan

def ofBits (bits : UInt64) : Binary64 :=
  ofParts (decide (signBit ≤ bits.toNat)) (bits.toNat % signBit)

/-- A sign and the 63 bits below it, as 64 bits. -/
def pack (negative : Bool) (rank : Nat) : UInt64 :=
  .ofNat (if negative then signBit + rank else rank)

def toBits : Binary64 → UInt64
  | nan => pack false (rankBound + fractionCount / 2)
  | infinity negative => pack negative rankBound
  | finite negative rank => pack negative rank

/-- The quantity a number stands for. Both zeros stand for the same one. -/
inductive Quantity
  | nan
  | infinity (negative : Bool)
  | units (n : Int)
deriving DecidableEq, Repr

def quantity : Binary64 → Quantity
  | nan => .nan
  | infinity negative => .infinity negative
  | finite negative rank =>
    .units (if negative then -(magnitude rank : Int) else magnitude rank)

def Quantity.ofInt (n : Int) : Quantity := .units (n * unitsPerOne)

/-- Numeric equality: exact, and false as soon as one side is NaN. -/
def Quantity.equal (a b : Quantity) : Bool := decide (a = b ∧ a ≠ .nan)

theorem ofBits_pack (negative : Bool) {rank : Nat} (h : rank < signBit) :
    ofBits (pack negative rank) = ofParts negative rank := by
  have half : signBit = 9223372036854775808 := rfl
  have value : (pack negative rank).toNat = if negative then signBit + rank else rank := by
    rw [half] at h ⊢
    cases negative <;> simp [pack, half] <;> omega
  rw [ofBits, value]
  cases negative with
  | false => simp [Nat.mod_eq_of_lt h, Nat.not_le.2 h]
  | true => simp [Nat.mod_eq_of_lt h]

theorem ofBits_toBits (x : Binary64) : ofBits x.toBits = x := by
  have small : rankBound + fractionCount / 2 < signBit := by decide
  cases x with
  | nan =>
    rw [toBits, ofBits_pack false small]
    rfl
  | infinity negative =>
    rw [toBits, ofBits_pack negative (by omega), ofParts, dif_neg (Nat.lt_irrefl _), if_pos rfl]
  | finite negative rank =>
    rw [toBits, ofBits_pack negative (by omega), ofParts, dif_pos rank.isLt]

end Binary64
end ScriptFront
