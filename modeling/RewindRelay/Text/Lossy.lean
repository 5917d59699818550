import RewindRelay.Bytes
/-!
# Text from any bytes

Bytes that should be UTF-8 may not be.  Where text is wanted all the same, a replacement mark stands
for each encoding that is begun and not finished, and for each byte that begins none.

* `Pending` — an encoding that has been begun.
* `decodeStep` — reads one byte.
* `ofBytes` — the text of any bytes.
-/

namespace RewindRelay.Text

/-- An encoding that has been begun.  The ranges of its second byte leave out longer encodings than
needed, surrogates, and numbers that are no code points. -/
structure Pending where
  /-- The bits so far. -/
  bits : Nat
  /-- How many bytes are owed. -/
  owed : Nat
  /-- The least byte that can be next. -/
  low : UInt8 := 0x80
  /-- The greatest byte that can be next. -/
  high : UInt8 := 0xbf
  deriving DecidableEq, Repr

/-- The mark for what is not UTF-8. -/
def replacementMark : Char := '\ufffd'

/-- Reads a byte that stands at the start of an encoding. -/
def decodeFirst (b : UInt8) : List Char × Option Pending :=
  if b < 0x80 then ([Char.ofNat b.toNat], none)
  else if b < 0xc2 then ([replacementMark], none)
  else if b < 0xe0 then ([], some { bits := b.toNat - 0xc0, owed := 1 })
  else if b < 0xf0 then
    ([], some { bits := b.toNat - 0xe0, owed := 2, low := if b = 0xe0 then 0xa0 else 0x80,
                high := if b = 0xed then 0x9f else 0xbf })
  else if b < 0xf5 then
    ([], some { bits := b.toNat - 0xf0, owed := 3, low := if b = 0xf0 then 0x90 else 0x80,
                high := if b = 0xf4 then 0x8f else 0xbf })
  else ([replacementMark], none)

/-- Reads a byte.  One that does not go on with the encoding may begin another. -/
def decodeStep (pending : Option Pending) (b : UInt8) : List Char × Option Pending :=
  match pending with
  | none => decodeFirst b
  | some p =>
    if p.low ≤ b ∧ b ≤ p.high then
      let bits := 64 * p.bits + (b.toNat - 0x80)
      if p.owed ≤ 1 then ([Char.ofNat bits], none) else ([], some { bits, owed := p.owed - 1 })
    else
      let (chars, next) := decodeFirst b
      (replacementMark :: chars, next)

/-- The characters of the bytes, the last one first, when some have been read. -/
def decodeOnto (chars : List Char) (pending : Option Pending) : Bytes → List Char
  | [] => if pending.isSome then replacementMark :: chars else chars
  | b :: rest =>
    let (more, next) := decodeStep pending b
    decodeOnto (more.reverseAux chars) next rest

def ofBytes (bytes : Bytes) : String := String.ofList (decodeOnto [] none bytes).reverse

end RewindRelay.Text
