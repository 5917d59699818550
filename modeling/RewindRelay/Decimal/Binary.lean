/-!
# Doubles as exact binary fractions

Every finite double is `± significand · 2 ^ exponent`.  Printing and rounding work on that exact
value in natural-number arithmetic, so no step of them can round by itself.

* `Binary` — not a number, an infinity, or an exact fraction.
* `roundHalfUp` — the nearest natural number, a half going up.
* `nearestCount`, `nearestInt64` — a double as a count or a timestamp.
* `ofCount`, `ofInt` — the double nearest to a whole number.
-/

namespace RewindRelay.Decimal

/-- The exact value of a double. -/
inductive Binary
  | nan
  | infinite (negative : Bool)
  | finite (negative : Bool) (significand : Nat) (exponent : Int)
  deriving DecidableEq, Repr

/-- The least exponent a double can have. -/
def leastExponent : Int := -1074

/-- The least significand of a double that has all its digits. -/
def hiddenBit : Nat := 0x10000000000000

/-- Splits a double into sign, significand and exponent. -/
def Binary.ofFloat (x : Float) : Binary :=
  let bits := x.toBits.toNat
  let negative : Bool := UInt64.size / 2 ≤ bits
  let scale : Nat := bits / hiddenBit % 2048
  let fraction : Nat := bits % hiddenBit
  if scale = 2047 then (if fraction = 0 then .infinite negative else .nan)
  else if scale = 0 then .finite negative fraction leastExponent
  else .finite negative (hiddenBit + fraction) ((scale : Int) - 1075)

/-- The natural number nearest to `significand · 2 ^ exponent`; a half goes up. -/
def roundHalfUp (significand : Nat) (exponent : Int) : Nat :=
  if exponent < 0 then
    let unit := Nat.pow 2 (-exponent).toNat
    (2 * significand + unit) / (2 * unit)
  else significand * Nat.pow 2 exponent.toNat

/-- The largest count that a machine word of 64 bits holds. -/
def maxCount : Nat := UInt64.size - 1

/-- The count nearest to a double.  Negative numbers and what is not a number count as zero, what
is too large as the largest count. -/
def nearestCount (x : Float) : Nat :=
  match Binary.ofFloat x with
  | .nan => 0
  | .infinite negative => if negative then 0 else maxCount
  | .finite negative significand exponent =>
    if negative then 0 else min maxCount (roundHalfUp significand exponent)

/-- The 64-bit integer nearest to a double, kept inside the range of such integers. -/
def nearestInt64 (x : Float) : Int64 :=
  match Binary.ofFloat x with
  | .nan => 0
  | .infinite negative => if negative then Int64.minValue else Int64.maxValue
  | .finite negative significand exponent =>
    let magnitude := roundHalfUp significand exponent
    if negative then Int64.ofInt (max Int64.minValue.toInt (-magnitude))
    else Int64.ofInt (min Int64.maxValue.toInt magnitude)

/-- The double nearest to a count below 2⁶⁴. -/
def ofCount (n : Nat) : Float := (UInt64.ofNat n).toFloat

/-- The double nearest to an integer of magnitude below 2⁶⁴. -/
def ofInt (i : Int) : Float := if i < 0 then -ofCount i.natAbs else ofCount i.natAbs

end RewindRelay.Decimal
