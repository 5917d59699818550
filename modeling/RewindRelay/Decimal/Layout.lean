import RewindRelay.Decimal.Shortest
/-!
# How a double is written

The digits of a double are fixed by `shortest`; where the point goes and when a power of ten is
written is a matter of layout.  The relay uses three layouts.

* `Layout.json` — numbers in dumps and status documents.
* `Layout.plain` — numbers in messages, never with a power of ten.
* `Layout.exact` — numbers in reports that must not be taken for integers.
-/

namespace RewindRelay.Decimal

/-- The choices that turn digits and a power of ten into a numeral. -/
structure Layout where
  /-- Leading powers of ten that are written positionally, first and last; all when absent. -/
  positional : Option (Int × Int)
  /-- Whether a whole number keeps a zero after the point. -/
  keepPoint : Bool
  /-- The sign written before a power of ten that is not negative. -/
  exponentSign : ExponentSign
  /-- The digits of a number that lies halfway between two shortest decimals. -/
  tie : Tie

/-- JSON numbers: positional from `0.00001` up to sixteen digits, else `1e+16` or `1.5e-10`. -/
def Layout.json : Layout :=
  { positional := some (-5, 15), keepPoint := true, exponentSign := .plus, tie := .toEven }

/-- Messages: always positional, and no point after a whole number. -/
def Layout.plain : Layout :=
  { positional := none, keepPoint := false, exponentSign := .unsigned, tie := .up }

/-- Reports: positional from `0.0001` up to sixteen digits, else `1e16` or `1.5e-10`. -/
def Layout.exact : Layout :=
  { positional := some (-4, 15), keepPoint := true, exponentSign := .unsigned, tie := .up }

/-- Does the layout write a number with this leading power of ten positionally? -/
def Layout.isPositional (l : Layout) (lead : Int) : Bool :=
  match l.positional with
  | none => true
  | some (first, last) => first ≤ lead ∧ lead ≤ last

/-- The fraction that is written: none at all, or at least one digit. -/
def Layout.fraction (l : Layout) (ds : List Digit) : List Digit :=
  if ds.isEmpty ∧ l.keepPoint then [.zero] else ds

def Layout.numeral (l : Layout) (negative : Bool) (coefficient : Nat) (power : Int) : Numeral :=
  let ds := digits coefficient
  let lead := power + ds.length - 1
  if l.isPositional lead then
    if lead < 0 then
      { negative, whole := [.zero]
        fraction := List.replicate (-lead - 1).toNat .zero ++ ds }
    else
      let places := lead.toNat + 1
      { negative
        whole := ds.take places ++ List.replicate (places - ds.length) .zero
        fraction := l.fraction (ds.drop places) }
  else
    { negative, whole := ds.take 1, fraction := ds.drop 1
      exponent := some
        { sign := if lead < 0 then .minus else l.exponentSign
          digits := digits lead.natAbs } }

def Layout.finite (l : Layout) (negative : Bool) (significand : Nat) (exponent : Int) : Numeral :=
  if significand = 0 then { negative, whole := [.zero], fraction := l.fraction [] }
  else
    let (coefficient, power) := shortest l.tie significand exponent
    l.numeral negative coefficient power

def Layout.numeral? (l : Layout) (x : Float) : Option Numeral :=
  match Binary.ofFloat x with
  | .finite negative significand exponent => some (l.finite negative significand exponent)
  | _ => none

def infinityText (negative : Bool) : String := if negative then "-inf" else "inf"

def Layout.text (l : Layout) (x : Float) : String :=
  match Binary.ofFloat x with
  | .nan => "NaN"
  | .infinite negative => infinityText negative
  | .finite negative significand exponent => (l.finite negative significand exponent).text

end RewindRelay.Decimal
