import RewindRelay.Json.Value
/-!
# Reading JSON

Documents are read by a machine that takes one byte at a time, so a document may nest to any depth
and nothing is read twice.  The grammar is strict: no comments, no trailing commas, no leading
zeros or plus signs, and after the document only blanks.

* `Place` — what the machine is in the middle of.
* `Frame` — an array or object that is still open.
* `step` — what one byte does.
* `parse` — a whole text as a document.
-/

namespace RewindRelay.Json

open Decimal (Digit Numeral Exponent ExponentSign)

/-! ## Where the machine can stand -/

/-- The part of a number that was read last. -/
inductive NumberPart
  | minus
  | zero
  | whole
  | point
  | fraction
  | power
  | powerSign
  | powerDigits
  deriving DecidableEq, Repr

/-- Can a number end after this part? -/
def NumberPart.complete : NumberPart → Bool
  | .zero | .whole | .fraction | .powerDigits => true
  | _ => false

/-- A number that is being read, the digits of each part latest first. -/
structure OpenNumber where
  part : NumberPart
  negative : Bool := false
  whole : List Digit := []
  fraction : List Digit := []
  sign : ExponentSign := .unsigned
  power : List Digit := []

def OpenNumber.numeral (n : OpenNumber) : Numeral :=
  { negative := n.negative
    whole := n.whole.reverse
    fraction := n.fraction.reverse
    exponent := if n.power.isEmpty then none else some ⟨n.sign, n.power.reverse⟩ }

/-- The fields of an object so far, latest first. -/
abbrev Fields := List (Text × Value)

/-- An array or object that is still open, what it holds listed latest first.  An object waits for
the value of the given key. -/
inductive Frame
  | array (items : List Value)
  | object (fields : Fields) (key : Text)

/-- What a string will be: a value, or the next key of an object. -/
inductive Role
  | value
  | key (fields : Fields)

/-- What the machine is in the middle of. -/
inductive Place
  | start
  | firstItem
  | firstKey
  | nextKey (fields : Fields)
  | colon (fields : Fields) (key : Text)
  | done (v : Value)
  | word (rest : Bytes) (v : Value)
  | number (n : OpenNumber)
  | text (role : Role) (units : Text)
  | escape (role : Role) (units : Text)
  | hex (role : Role) (units : Text) (missing : Nat) (code : Nat)

/-- The machine between two bytes: its place and the open arrays and objects, innermost first. -/
structure Machine where
  place : Place
  frames : List Frame

def Machine.initial : Machine := ⟨.start, []⟩

/-! ## Classes of bytes -/

/-- Space, tab, line feed and carriage return. -/
def isBlank (b : UInt8) : Bool := b = 32 ∨ b = 9 ∨ b = 10 ∨ b = 13

def digitOf? (b : UInt8) : Option Digit :=
  if h : 48 ≤ b.toNat ∧ b.toNat < 58 then some ⟨b.toNat - 48, by omega⟩ else none

def hexOf? (b : UInt8) : Option Nat :=
  if 48 ≤ b ∧ b < 58 then some (b.toNat - 48)
  else if 97 ≤ b ∧ b < 103 then some (b.toNat - 87)
  else if 65 ≤ b ∧ b < 71 then some (b.toNat - 55)
  else none

/-- The byte that a letter after a backslash stands for. -/
def escaped? (b : UInt8) : Option UInt8 :=
  if b = 34 ∨ b = 92 ∨ b = 47 then some b
  else if b = 98 then some 8
  else if b = 102 then some 12
  else if b = 110 then some 10
  else if b = 114 then some 13
  else if b = 116 then some 9
  else none

/-! ## One byte -/

/-- A value starts, and this is its first byte. -/
def startValue (frames : List Frame) (b : UInt8) : Option Machine :=
  if b = 110 then some ⟨.word [117, 108, 108] .null, frames⟩
  else if b = 116 then some ⟨.word [114, 117, 101] (.bool true), frames⟩
  else if b = 102 then some ⟨.word [97, 108, 115, 101] (.bool false), frames⟩
  else if b = 34 then some ⟨.text .value [], frames⟩
  else if b = 91 then some ⟨.firstItem, frames⟩
  else if b = 123 then some ⟨.firstKey, frames⟩
  else if b = 45 then some ⟨.number { part := .minus, negative := true }, frames⟩
  else match digitOf? b with
    | some d =>
      some ⟨.number { part := if d = .zero then .zero else .whole, whole := [d] }, frames⟩
    | none => none

/-- A value is complete, and this byte follows it. -/
def afterValue (v : Value) (frames : List Frame) (b : UInt8) : Option Machine :=
  if isBlank b then some ⟨.done v, frames⟩
  else match frames with
    | [] => none
    | .array items :: outer =>
      if b = 44 then some ⟨.start, .array (v :: items) :: outer⟩
      else if b = 93 then some ⟨.done (.array (v :: items).reverse), outer⟩
      else none
    | .object fields key :: outer =>
      if b = 44 then some ⟨.nextKey ((key, v) :: fields), outer⟩
      else if b = 125 then some ⟨.done (.object ((key, v) :: fields).reverse), outer⟩
      else none

/-- The number goes on with this byte, if it can. -/
def OpenNumber.extend (n : OpenNumber) (b : UInt8) : Option OpenNumber :=
  let isPower := b = 101 ∨ b = 69
  match n.part, digitOf? b with
  | .minus, some d => some { n with part := if d = .zero then .zero else .whole, whole := [d] }
  | .whole, some d => some { n with whole := d :: n.whole }
  | .point, some d | .fraction, some d =>
    some { n with part := .fraction, fraction := d :: n.fraction }
  | .power, some d | .powerSign, some d | .powerDigits, some d =>
    some { n with part := .powerDigits, power := d :: n.power }
  | .zero, none | .whole, none =>
    if b = 46 then some { n with part := .point }
    else if isPower then some { n with part := .power }
    else none
  | .fraction, none => if isPower then some { n with part := .power } else none
  | .power, none =>
    if b = 43 then some { n with part := .powerSign, sign := .plus }
    else if b = 45 then some { n with part := .powerSign, sign := .minus }
    else none
  | _, _ => none

/-- A string ends. -/
def endText (role : Role) (units : Text) : Place :=
  match role with
  | .value => .done (.text units.reverse)
  | .key fields => .colon fields units.reverse

/-- What one byte does to the machine; nothing when the text is refused. -/
def step (m : Machine) (b : UInt8) : Option Machine :=
  match m.place with
  | .start => if isBlank b then some m else startValue m.frames b
  | .firstItem =>
    if isBlank b then some m
    else if b = 93 then some ⟨.done (.array []), m.frames⟩
    else startValue (.array [] :: m.frames) b
  | .firstKey =>
    if isBlank b then some m
    else if b = 125 then some ⟨.done (.object []), m.frames⟩
    else if b = 34 then some ⟨.text (.key []) [], m.frames⟩
    else none
  | .nextKey fields =>
    if isBlank b then some m
    else if b = 34 then some ⟨.text (.key fields) [], m.frames⟩
    else none
  | .colon fields key =>
    if isBlank b then some m
    else if b = 58 then some ⟨.start, .object fields key :: m.frames⟩
    else none
  | .done v => afterValue v m.frames b
  | .word [] v => afterValue v m.frames b
  | .word (expected :: rest) v =>
    if b = expected then some ⟨if rest.isEmpty then .done v else .word rest v, m.frames⟩
    else none
  | .number n =>
    match n.extend b with
    | some n' => some ⟨.number n', m.frames⟩
    | none =>
      if n.part.complete ∧ (digitOf? b).isNone then afterValue (.number n.numeral) m.frames b
      else none
  | .text role units =>
    if b = 34 then some ⟨endText role units, m.frames⟩
    else if b = 92 then some ⟨.escape role units, m.frames⟩
    else if b < 32 then none
    else some ⟨.text role (.byte b :: units), m.frames⟩
  | .escape role units =>
    if b = 117 then some ⟨.hex role units 4 0, m.frames⟩
    else (escaped? b).map fun c => ⟨.text role (.byte c :: units), m.frames⟩
  | .hex role units missing code =>
    (hexOf? b).map fun d =>
      let code := code * 16 + d
      if missing ≤ 1 then ⟨.text role (.utf16 code :: units), m.frames⟩
      else ⟨.hex role units (missing - 1) code, m.frames⟩

/-! ## A whole text -/

def run (m : Machine) : Bytes → Option Machine
  | [] => some m
  | b :: rest =>
    match step m b with
    | some m' => run m' rest
    | none => none

/-- **Reading in pieces.**  A text may be cut anywhere. -/
theorem run_append (m : Machine) (first second : Bytes) :
    run m (first ++ second) = (run m first).bind fun m' => run m' second := by
  induction first generalizing m with
  | nil => rfl
  | cons b rest ih =>
    simp only [List.cons_append, run]
    cases step m b with
    | none => rfl
    | some m' => exact ih m'

/-- The document that was read, if the text may end here. -/
def Machine.result? (m : Machine) : Option Value :=
  match m.frames, m.place with
  | [], .done v => some v
  | [], .number n => if n.part.complete then some (.number n.numeral) else none
  | _, _ => none

/-- The document that a text is, if it is one. -/
def parse (input : Bytes) : Option Value := (run .initial input).bind Machine.result?

end RewindRelay.Json
