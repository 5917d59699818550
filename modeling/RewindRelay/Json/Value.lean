import RewindRelay.Bytes
import RewindRelay.Decimal.Layout
/-!
# JSON documents

A document is kept as it was written: numbers are numerals and strings are runs of bytes and
UTF-16 escapes.  Whether a numeral fits a field and whether a string is proper text is decided
where a field is read, so a part of a document that nobody reads is held to the grammar only.

* `Text` — the inside of a JSON string.
* `Value` — a document.
* `Text.toString?` — the text of a string, if its bytes are UTF-8 and its surrogates are paired.
* `Value.sorted` — a document with the keys of every object in order.
-/

namespace RewindRelay.Json

open Decimal (Numeral)

/-! ## Strings -/

/-- One piece of a JSON string: a byte, or a unit of UTF-16 written as an escape. -/
inductive TextUnit
  | byte (b : UInt8)
  | utf16 (code : Nat)
  deriving DecidableEq, Repr

/-- The inside of a JSON string. -/
abbrev Text := List TextUnit

namespace Text

/-- A string that is written without UTF-16 escapes. -/
def ofString (text : String) : Text := (Bytes.utf8 text).map .byte

/-- Is the unit the first half of a surrogate pair? -/
def isHigh (code : Nat) : Bool := 0xd800 ≤ code ∧ code < 0xdc00

/-- Is the unit the second half of a surrogate pair? -/
def isLow (code : Nat) : Bool := 0xdc00 ≤ code ∧ code < 0xe000

def paired (high low : Nat) : Nat := 0x10000 + (high - 0xd800) * 0x400 + (low - 0xdc00)

def charBytes (code : Nat) : Bytes := Bytes.utf8 (String.singleton (Char.ofNat code))

/-- Collects the bytes of a string, latest first; nothing when a surrogate stands alone. -/
def gather (read : Bytes) : Text → Option Bytes
  | [] => some read
  | .byte b :: rest => gather (b :: read) rest
  | .utf16 code :: rest =>
    if isHigh code then
      match rest with
      | .utf16 low :: rest' =>
        if isLow low then gather ((charBytes (paired code low)).reverse ++ read) rest' else none
      | _ => none
    else if isLow code then none
    else gather ((charBytes code).reverse ++ read) rest

/-- The text of a JSON string.  Lone surrogates and bytes that are not UTF-8 have none. -/
def toString? (t : Text) : Option String :=
  (gather [] t).bind fun bytes => Bytes.ofUtf8? bytes.reverse

end Text

/-! ## Documents -/

/-- A JSON document.  Objects keep their fields in the order they were written. -/
inductive Value
  | null
  | bool (b : Bool)
  | number (n : Numeral)
  | text (t : Text)
  | array (items : List Value)
  | object (fields : List (Text × Value))

namespace Value

def ofString (text : String) : Value := .text (Text.ofString text)

def ofInt (i : Int) : Value := .number (Numeral.ofInt i)

def ofNat (n : Nat) : Value := ofInt n

/-- A document of a double: `null` when it is not finite. -/
def ofFloat (x : Float) : Value :=
  match Decimal.Layout.json.numeral? x with
  | some n => .number n
  | none => .null

/-- A document that may be missing, written as `null`. -/
def ofOption {α : Type} (f : α → Value) : Option α → Value
  | none => .null
  | some a => f a

def field (name : String) (v : Value) : Text × Value := (Text.ofString name, v)

/-- A field that is left out when there is nothing to write. -/
def optionalField {α : Type} (name : String) (f : α → Value) : Option α → List (Text × Value)
  | none => []
  | some a => [field name (f a)]

/-! ## Sorted documents -/

/-- Fields are ordered by the text of their keys. -/
def keyLe (a b : Text × Value) : Bool :=
  (a.1.toString?.getD "") ≤ (b.1.toString?.getD "")

mutual

/-- The document with the keys of every object in order. -/
def sorted : Value → Value
  | .array items => .array (sortedItems items)
  | .object fields => .object ((sortedFields fields).mergeSort keyLe)
  | v => v

def sortedItems : List Value → List Value
  | [] => []
  | v :: rest => sorted v :: sortedItems rest

def sortedFields : List (Text × Value) → List (Text × Value)
  | [] => []
  | (key, v) :: rest => (key, sorted v) :: sortedFields rest

end

end Value

end RewindRelay.Json
