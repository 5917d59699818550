import RewindRelay.Json.Number
/-!
# Records in documents

A record with known fields is written as an object, whose unknown fields are skipped and whose
known fields may each stand once, or as an array of the values in order, of which only trailing
optional ones may be missing.

* `record?` — the values of the known fields, in order.
* `Value.string?`, `Value.int64?`, `Value.double?` — documents as plain values.
* `Value.optional?` — a field that may be missing or `null`.
-/

namespace RewindRelay.Json

/-! ## Fields -/

/-- One slot for each known field, empty until the field is met. -/
abbrev Slots := List (String × Option Value)

/-- Fills the slot of a known field; nothing when it is full already.  Unknown fields are
skipped. -/
def Slots.fill (name : String) (v : Value) : Slots → Option Slots
  | [] => some []
  | (known, slot) :: rest =>
    if known = name then
      match slot with
      | none => some ((known, some v) :: rest)
      | some _ => none
    else (Slots.fill name v rest).map ((known, slot) :: ·)

/-- Goes through the fields of an object.  Every key must be proper text, known or not. -/
def Slots.fillAll (slots : Slots) : List (Text × Value) → Option Slots
  | [] => some slots
  | (key, v) :: rest =>
    match key.toString?.bind fun name => Slots.fill name v slots with
    | some slots' => fillAll slots' rest
    | none => none

/-- The values of the known fields in order.  The first `required` of them must be there when the
record is written as an array. -/
def record? (names : List String) (required : Nat) : Value → Option (List (Option Value))
  | .object fields =>
    (Slots.fillAll (names.map fun name => (name, none)) fields).map fun slots =>
      slots.map Prod.snd
  | .array items =>
    if required ≤ items.length ∧ items.length ≤ names.length then
      some (items.map some ++ List.replicate (names.length - items.length) none)
    else none
  | _ => none

/-! ## Plain values -/

namespace Value

def string? : Value → Option String
  | .text t => t.toString?
  | _ => none

def int64? : Value → Option Int64
  | .number n => Json.int64? n
  | _ => none

def double? : Value → Option Float
  | .number n => Json.double? n
  | _ => none

/-- A field that may be missing or `null`. -/
def optional? {α : Type} (read : Value → Option α) : Option Value → Option (Option α)
  | none | some .null => some none
  | some v => (read v).map some

end Value

end RewindRelay.Json
