import RewindRelay.Decimal.Binary
/-!
# The arithmetic of time

Windows, gaps and offsets are computed from timestamps and durations.  The relay computes them in
doubles; the same rules make sense in exact arithmetic, or in an arithmetic that errs in a known
way.  So the rules are stated once, over an `Arithmetic`, and the relay runs them on `double`.

The gap between two timestamps is the one number that is taken before it is converted.  It has to
fit into 64 bits, and where it does not, what asked for it fails.

* `Fault`, `timeBetween` — what can fail, and a gap that fits.
* `Arithmetic` — the operations the rules need.
* `Arithmetic.double` — doubles, with integer gaps taken in 64 bits.
-/

namespace RewindRelay

/-! ## Machine words -/

/-- What goes wrong in machine words. -/
inductive Fault
  /-- A result does not fit into a word. -/
  | overflow
  /-- There is nothing at a position. -/
  | outOfRange
  deriving DecidableEq, Repr

def Fault.message : Fault → String
  | .overflow => "attempt to subtract with overflow"
  | .outOfRange => "index out of bounds"

/-- The time from one timestamp to another. -/
def timeBetween (first last : Int64) : Except Fault Int64 :=
  if Int64.minValue.toInt ≤ last.toInt - first.toInt ∧
      last.toInt - first.toInt ≤ Int64.maxValue.toInt then .ok (last - first)
  else .error .overflow

/-! ## Numbers -/

/-- What the rules about time need to know of the numbers they compute with. -/
structure Arithmetic (α : Type) where
  /-- A timestamp as a number. -/
  ofTime : Int64 → α
  /-- The time from one timestamp to a later one, if it can be taken. -/
  elapsed : Int64 → Int64 → Except Fault α
  /-- A count as a number. -/
  ofCount : Nat → α
  add : α → α → α
  sub : α → α → α
  mul : α → α → α
  div : α → α → α
  le : α → α → Bool
  lt : α → α → Bool
  /-- The nearest count. -/
  nearestCount : α → Nat

/-- Doubles.  The gap between two timestamps is taken in 64-bit integers and then converted. -/
def Arithmetic.double : Arithmetic Float where
  ofTime t := Decimal.ofInt t.toInt
  elapsed first last := (timeBetween first last).map fun gap => Decimal.ofInt gap.toInt
  ofCount := Decimal.ofCount
  add x y := x + y
  sub x y := x - y
  mul x y := x * y
  div x y := x / y
  le x y := x ≤ y
  lt x y := x < y
  nearestCount := Decimal.nearestCount

end RewindRelay
