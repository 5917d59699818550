import RewindRelay.Decimal.Binary
import RewindRelay.Decimal.Numeral
/-!
# The fewest digits that read back

A double is printed with the fewest significant digits that still single it out, and among those
with the digits nearest to its exact value.  Everything is exact: the reals that round to the
double form an interval around it, and for one digit, two digits and so on the two neighbours of
the value on that decimal grid are tested against the interval.

* `Neighbourhood` — a positive double with the interval of reals that round to it.
* `Tie` — which of two equally near decimals is taken.
* `shortest` — the digits, and the power of ten of the last one.
-/

namespace RewindRelay.Decimal

/-- The reals that round to a positive double, in units of `2 ^ unit`.  The ends belong to the
interval when the significand is even. -/
structure Neighbourhood where
  low : Nat
  value : Nat
  high : Nat
  unit : Int
  closed : Bool

/-- The interval of `significand · 2 ^ exponent`.  Just above a power of two the next smaller
double is only half as far away. -/
def Neighbourhood.of (significand : Nat) (exponent : Int) : Neighbourhood :=
  let narrow := significand = hiddenBit ∧ leastExponent < exponent
  { low := 4 * significand - (if narrow then 1 else 2)
    value := 4 * significand
    high := 4 * significand + 2
    unit := exponent - 2
    closed := significand % 2 = 0 }

/-- Which of two equally near neighbours on a decimal grid is taken. -/
inductive Tie
  | toEven
  | up
  deriving DecidableEq, Repr

/-- The upper of two neighbours is taken in a tie, `below` being the lower one. -/
def Tie.takesUpper (tie : Tie) (below : Nat) : Bool :=
  match tie with
  | .toEven => below % 2 = 1
  | .up => true

/-- A rational `p · 2 ^ unit / 10 ^ power` as a pair of naturals, numerator first. -/
def gridFraction (p : Nat) (unit power : Int) : Nat × Nat :=
  (p * Nat.pow 2 unit.toNat * Nat.pow 10 (-power).toNat,
    Nat.pow 2 (-unit).toNat * Nat.pow 10 power.toNat)

/-- Does the grid point `c · 10 ^ power` lie in the interval? -/
def Neighbourhood.holds (n : Neighbourhood) (c : Nat) (power : Int) : Bool :=
  let (lowNum, den) := gridFraction n.low n.unit power
  let (highNum, _) := gridFraction n.high n.unit power
  if n.closed then lowNum ≤ c * den ∧ c * den ≤ highNum
  else lowNum < c * den ∧ c * den < highNum

/-- The power of ten of the leading digit of a positive number `p · 2 ^ unit`. -/
def leadingPower (p : Nat) (unit : Int) : Int :=
  let (num, den) := gridFraction p unit 0
  let guess : Int := (digits num).length - (digits den).length
  let (num', den') := gridFraction p unit guess
  if den' ≤ num' then guess else guess - 1

/-- The better of the two neighbours of the value on the grid of `10 ^ power`, if one lies in the
interval.  Of two the nearer wins. -/
def Neighbourhood.onGrid (n : Neighbourhood) (tie : Tie) (power : Int) : Option Nat :=
  let (num, den) := gridFraction n.value n.unit power
  let below := num / den
  let rest := 2 * (num % den)
  match n.holds below power, n.holds (below + 1) power with
  | true, true =>
    if rest < den then some below
    else if den < rest then some (below + 1)
    else some (if tie.takesUpper below then below + 1 else below)
  | true, false => some below
  | false, true => some (below + 1)
  | false, false => none

/-- Moves trailing zeros of a coefficient into the power of ten. -/
def dropZeros (coefficient : Nat) (power : Int) : Nat × Int :=
  if _h : 0 < coefficient ∧ coefficient % 10 = 0 then dropZeros (coefficient / 10) (power + 1)
  else (coefficient, power)
termination_by coefficient

/-- **The shortest decimal of a positive double**, as coefficient and power of ten.  Seventeen
digits always single a double out, so the search never runs past them. -/
def shortest (tie : Tie) (significand : Nat) (exponent : Int) : Nat × Int :=
  let n := Neighbourhood.of significand exponent
  let lead := leadingPower n.value n.unit
  let found := (List.range 17).findSome? fun (extra : Nat) =>
    let power : Int := lead - extra
    (n.onGrid tie power).map fun c => (c, power)
  let (coefficient, power) := found.getD (significand, exponent)
  dropZeros coefficient power

end RewindRelay.Decimal
