import RewindRelay.Decimal.Layout
/-!
# Doubles with a fixed number of places

Summaries and reports show seconds, percentages and milliseconds with a fixed number of digits
after the point.  The exact binary value is rounded once, and a tie goes to the even neighbour.

* `roundHalfEven` — a quotient rounded to the nearest natural number.
* `fixedText` — a double with a fixed number of places.
* `padLeft` — a text moved to the right edge of a column.
-/

namespace RewindRelay.Decimal

/-- The natural number nearest to `num / den`; a tie goes to the even neighbour. -/
def roundHalfEven (num den : Nat) : Nat :=
  let below := num / den
  let rest := 2 * (num % den)
  if rest < den then below
  else if den < rest then below + 1
  else if below % 2 = 0 then below else below + 1

/-- The numeral of a finite double with `places` digits after the point. -/
def fixedNumeral (places : Nat) (negative : Bool) (significand : Nat) (exponent : Int) :
    Numeral :=
  let (num, den) := gridFraction significand exponent (-places)
  let ds := digits (roundHalfEven num den)
  let ds := List.replicate (places + 1 - ds.length) .zero ++ ds
  let point := ds.length - places
  { negative, whole := ds.take point, fraction := ds.drop point }

def fixedText (places : Nat) (x : Float) : String :=
  match Binary.ofFloat x with
  | .nan => "NaN"
  | .infinite negative => infinityText negative
  | .finite negative significand exponent =>
    (fixedNumeral places negative significand exponent).text

/-- A text moved to the right edge of a column of the given width. -/
def padLeft (width : Nat) (text : String) : String :=
  String.ofList (List.replicate (width - text.length) ' ') ++ text

end RewindRelay.Decimal
