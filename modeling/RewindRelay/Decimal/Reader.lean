import RewindRelay.Decimal.Numeral
import RewindRelay.Decimal.Binary
/-!
# Numbers in settings, queries and command lines

Operators write numbers freely: `5.`, `.5`, `+3`, `1e3`, `inf` and `NaN` are all doubles.  A
decimal is rounded once, to the nearest double.  Whole numbers take an optional sign and must fit
their range.

* `readDouble?` — a double from the text an operator wrote.
* `readCount?` — an unsigned count.
* `readInt?` — a signed integer within bounds.
-/

namespace RewindRelay.Decimal

/-! ## Runs of digits -/

/-- The digits at the front of a text, and the rest. -/
def spanDigits : List Char → List Digit × List Char
  | [] => ([], [])
  | c :: rest =>
    match digit? c with
    | some d => let (ds, rest') := spanDigits rest; (d :: ds, rest')
    | none => ([], c :: rest)

/-- A text of digits and nothing else, at least one. -/
def allDigits? (cs : List Char) : Option (List Digit) :=
  match spanDigits cs with
  | (ds, []) => if ds.isEmpty then none else some ds
  | _ => none

/-- Splits off an optional sign; true for a minus. -/
def spanSign : List Char → Bool × List Char
  | '-' :: rest => (true, rest)
  | '+' :: rest => (false, rest)
  | cs => (false, cs)

/-! ## Whole numbers -/

/-- An integer with an optional sign, if it lies in the range. -/
def readInt? (least greatest : Int) (text : String) : Option Int :=
  let (negative, cs) := spanSign text.toList
  (allDigits? cs).bind fun ds =>
    let value : Int := if negative then -(ofDigits ds : Int) else ofDigits ds
    if least ≤ value ∧ value ≤ greatest then some value else none

def readInt64? (text : String) : Option Int64 :=
  (readInt? Int64.minValue.toInt Int64.maxValue.toInt text).map Int64.ofInt

/-- A count of at most 64 bits.  A leading plus is allowed, a minus is not. -/
def readCount? (text : String) : Option Nat :=
  let cs := match text.toList with
    | '+' :: rest => rest
    | cs => cs
  (allDigits? cs).bind fun ds =>
    if ofDigits ds ≤ maxCount then some (ofDigits ds) else none

/-! ## Doubles -/

def notANumber : Float := Float.ofBits 0x7ff8000000000000

def infinity : Float := Float.ofBits 0x7ff0000000000000

/-- The double nearest to `coefficient · 10 ^ power`.  Far outside the range of doubles the answer
is known from the number of digits alone. -/
def nearestDouble (coefficient : Nat) (power : Int) : Float :=
  let lead := power + (digits coefficient).length
  if coefficient = 0 ∨ lead < -400 then 0
  else if 400 < lead then infinity
  else Float.ofScientific coefficient (power < 0) power.natAbs

/-- A power of ten as an operator writes it: a sign and at least one digit. -/
def readPower? (cs : List Char) : Option Int :=
  let (negative, cs) := spanSign cs
  (allDigits? cs).map fun ds => if negative then -(ofDigits ds : Int) else ofDigits ds

/-- A decimal without sign: digits with at most one point, then perhaps a power of ten. -/
def readDecimal? (cs : List Char) : Option Float :=
  let (whole, cs) := spanDigits cs
  let (fraction, cs) := match cs with
    | '.' :: rest => spanDigits rest
    | cs => ([], cs)
  if whole.isEmpty ∧ fraction.isEmpty then none
  else
    let value := fun power : Int =>
      nearestDouble (ofDigits (whole ++ fraction)) (power - fraction.length)
    match cs with
    | [] => some (value 0)
    | c :: rest => if c = 'e' ∨ c = 'E' then (readPower? rest).map value else none

/-- The names of the doubles that have no digits, in lower case. -/
def namedDouble? (name : String) : Option Float :=
  if name = "inf" ∨ name = "infinity" then some infinity
  else if name = "nan" then some notANumber
  else none

/-- A double from the text an operator wrote, rounded to nearest. -/
def readDouble? (text : String) : Option Float :=
  let (negative, cs) := spanSign text.toList
  let magnitude := match namedDouble? (String.ofList (cs.map Char.toLower)) with
    | some x => some x
    | none => readDecimal? cs
  magnitude.map fun x => if negative then -x else x

end RewindRelay.Decimal
