import RewindRelay.Json.Value
/-!
# Numbers in documents

A numeral becomes a timestamp only when it is a plain integer in range.  It becomes a double by a
fast rule that is **not** always correctly rounded: the leading digits are collected in 64 bits,
converted once, and scaled by a power of ten.  Numbers written with few digits are exact under it;
a full-length decimal may come out one unit away from the nearest double.

* `collect` — digits as long as they fit 64 bits.
* `int64?` — a numeral as a timestamp.
* `scale` — multiplication by a power of ten in steps that stay inside the doubles.
* `double?` — a numeral as a double.
-/

namespace RewindRelay.Json

open Decimal (Digit Numeral maxCount ofCount)

/-! ## Collecting digits -/

/-- Collects digits as long as the value fits 64 bits, and says how many were left over. -/
def collect (value : Nat) : List Digit → Nat × Nat
  | [] => (value, 0)
  | d :: rest =>
    if 10 * value + d.val ≤ maxCount then collect (10 * value + d.val) rest
    else (value, rest.length + 1)

/-- A plain integer that fits 64 bits, without its sign. -/
def plain? (n : Numeral) : Option Nat :=
  if n.fraction.isEmpty ∧ n.exponent.isNone then
    match collect 0 n.whole with
    | (value, 0) => some value
    | _ => none
  else none

/-- How many negative numbers there are in 64 bits. -/
def halfRange : Nat := UInt64.size / 2

/-- A numeral as a 64-bit integer.  A negative zero is no integer. -/
def int64? (n : Numeral) : Option Int64 :=
  (plain? n).bind fun value =>
    if n.negative then
      if 0 < value ∧ value ≤ halfRange then some (Int64.ofInt (-value)) else none
    else if value < halfRange then some (Int64.ofNat value) else none

/-! ## Doubles -/

def powerOfTen (n : Nat) : Float := Float.ofScientific 1 false n

/-- Multiplies by a power of ten; nothing when the result would be infinite.  Below `10 ^ -308`
the division is done in steps. -/
def scale (f : Float) (power : Int) : Option Float :=
  if power.natAbs ≤ 308 then
    if 0 ≤ power then
      let product := f * powerOfTen power.natAbs
      if product.isInf then none else some product
    else some (f / powerOfTen power.natAbs)
  else if f == 0 then some f
  else if 0 ≤ power then none
  else scale (f / powerOfTen 308) (power + 308)
termination_by power.natAbs

/-- The greatest power of ten that is read: the greatest integer of 32 bits. -/
def maxPower : Nat := UInt32.size / 2 - 1

/-- A power of ten as written: its size if it is in range. -/
def collectPower (value : Nat) : List Digit → Option Nat
  | [] => some value
  | d :: rest =>
    if 10 * value + d.val ≤ maxPower then collectPower (10 * value + d.val) rest else none

/-- The magnitude of a numeral that is not a plain integer. -/
def magnitude? (n : Numeral) : Option Float :=
  let (whole, dropped) := collect 0 n.whole
  let (significand, unused) := collect whole n.fraction
  let power : Int := dropped - (n.fraction.length - unused : Nat)
  let f := ofCount significand
  match n.exponent with
  | none => scale f power
  | some e =>
    match e.sign, collectPower 0 e.digits with
    | .minus, some size => scale f (power - size)
    | _, some size => scale f (power + size)
    | .minus, none => some 0
    | _, none => if significand = 0 then some 0 else none

def double? (n : Numeral) : Option Float :=
  let signed (x : Float) : Float := if n.negative then -x else x
  match plain? n with
  | some value =>
    -- a negative integer beyond 64 bits is read like any other decimal, with the same result
    some (signed (ofCount value))
  | none => (magnitude? n).map signed

end RewindRelay.Json
