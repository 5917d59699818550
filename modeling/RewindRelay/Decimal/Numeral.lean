/-!
# Decimal numerals

A numeral is a number as it is written: a sign, digits before and after the point, and perhaps a
power of ten.  Reading a text and laying out a double both go through this type, so that the
syntax of numbers is stated once.

* `digits` / `ofDigits` — a natural number as decimal digits, and back.
* `Numeral` — what stands on the page.
* `Numeral.chars` — the characters of a numeral.
-/

namespace RewindRelay.Decimal

/-- A decimal digit. -/
abbrev Digit := Fin 10

def Digit.zero : Digit := ⟨0, by decide⟩

/-- The digits of a natural number, most significant first; zero is one digit. -/
def digits (n : Nat) : List Digit :=
  if h : n < 10 then [⟨n, h⟩]
  else digits (n / 10) ++ [⟨n % 10, Nat.mod_lt n (by decide)⟩]

/-- The number that digits stand for, continuing from the value read so far. -/
def ofDigitsFrom (read : Nat) (ds : List Digit) : Nat :=
  ds.foldl (fun value d => 10 * value + d.val) read

/-- The number that digits stand for. -/
def ofDigits (ds : List Digit) : Nat := ofDigitsFrom 0 ds

/-- **Digits read back.** -/
theorem ofDigits_digits (n : Nat) : ofDigits (digits n) = n := by
  induction n using Nat.strongRecOn with
  | _ n ih =>
    rw [digits]
    split
    · simp [ofDigits, ofDigitsFrom]
    · next h =>
      have hn := ih (n / 10) (by omega)
      simp only [ofDigits, ofDigitsFrom] at hn
      simp only [ofDigits, ofDigitsFrom, List.foldl_append, hn, List.foldl_cons, List.foldl_nil]
      omega

def digitChar (d : Digit) : Char := Char.ofNat (48 + d.val)

def digit? (c : Char) : Option Digit :=
  if h : 48 ≤ c.toNat ∧ c.toNat < 58 then some ⟨c.toNat - 48, by omega⟩ else none

/-- How the sign of a power of ten is written. -/
inductive ExponentSign
  | unsigned
  | plus
  | minus
  deriving DecidableEq, Repr

/-- The power of ten after a numeral. -/
structure Exponent where
  sign : ExponentSign
  digits : List Digit
  deriving DecidableEq, Repr

/-- A number as it is written.  An empty fraction means that no point is written. -/
structure Numeral where
  negative : Bool := false
  whole : List Digit
  fraction : List Digit := []
  exponent : Option Exponent := none
  deriving DecidableEq, Repr

namespace Numeral

def ofInt (i : Int) : Numeral := { negative := i < 0, whole := digits i.natAbs }

def signChars : ExponentSign → List Char
  | .unsigned => []
  | .plus => ['+']
  | .minus => ['-']

def chars (n : Numeral) : List Char :=
  (if n.negative then ['-'] else []) ++ n.whole.map digitChar ++
  (if n.fraction.isEmpty then [] else '.' :: n.fraction.map digitChar) ++
  match n.exponent with
  | none => []
  | some e => 'e' :: signChars e.sign ++ e.digits.map digitChar

def text (n : Numeral) : String := String.ofList n.chars

end Numeral

def intText (i : Int) : String := (Numeral.ofInt i).text

end RewindRelay.Decimal
