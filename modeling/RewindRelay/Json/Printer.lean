import RewindRelay.Json.Value
/-!
# Writing JSON

Documents are written without blanks.  In strings only the quote, the backslash and the control
characters are escaped, the common ones by a letter and the others as `\u00` and two hexadecimal
digits; all other bytes stand for themselves.

* `Text.render` — the bytes between the quotes of a string.
* `Value.render` — the bytes of a document.
-/

namespace RewindRelay.Json

open Decimal (Numeral)

def ascii (c : Char) : UInt8 := UInt8.ofNat c.toNat

/-- The hexadecimal digit of a number below sixteen, in lower case. -/
def hexDigit (n : Nat) : UInt8 := UInt8.ofNat (if n < 10 then 48 + n else 87 + n)

def utf16Escape (code : Nat) : Bytes :=
  [ascii '\\', ascii 'u', hexDigit (code / 4096 % 16), hexDigit (code / 256 % 16),
   hexDigit (code / 16 % 16), hexDigit (code % 16)]

/-- The letter that escapes a byte, for the bytes that have one. -/
def shortEscape? (b : UInt8) : Option Char :=
  if b = 34 then some '"'
  else if b = 92 then some '\\'
  else if b = 8 then some 'b'
  else if b = 12 then some 'f'
  else if b = 10 then some 'n'
  else if b = 13 then some 'r'
  else if b = 9 then some 't'
  else none

/-- A unit of a string as it is written. -/
def TextUnit.render : TextUnit → Bytes
  | .utf16 code => utf16Escape code
  | .byte b =>
    match shortEscape? b with
    | some letter => [ascii '\\', ascii letter]
    | none => if b < 32 then utf16Escape b.toNat else [b]

/-- The bytes between the quotes of a string. -/
def Text.render (t : Text) : Bytes := t.flatMap TextUnit.render

def quoted (t : Text) : Bytes := ascii '"' :: t.render ++ [ascii '"']

def numeralBytes (n : Numeral) : Bytes := n.chars.map ascii

mutual

def Value.render : Value → Bytes
  | .null => Bytes.utf8 "null"
  | .bool b => Bytes.utf8 (if b then "true" else "false")
  | .number n => numeralBytes n
  | .text t => quoted t
  | .array items => ascii '[' :: renderItems items
  | .object fields => ascii '\x7b' :: renderFields fields

/-- The items of an array and its closing bracket. -/
def renderItems : List Value → Bytes
  | [] => [ascii ']']
  | [v] => v.render ++ [ascii ']']
  | v :: w :: rest => v.render ++ ascii ',' :: renderItems (w :: rest)

/-- The fields of an object and its closing brace. -/
def renderFields : List (Text × Value) → Bytes
  | [] => [ascii '\x7d']
  | [(key, v)] => quoted key ++ ascii ':' :: v.render ++ [ascii '\x7d']
  | (key, v) :: next :: rest =>
    quoted key ++ ascii ':' :: v.render ++ ascii ',' :: renderFields (next :: rest)

end

def Value.text? (v : Value) : Option String := Bytes.ofUtf8? v.render

end RewindRelay.Json
