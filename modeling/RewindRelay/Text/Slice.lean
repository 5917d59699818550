/-!
# Parts of a text by bytes

Positions in a directive count bytes of UTF-8, so a part between two positions is a text only if
neither of them lies within a character.

* `byteLength` — how many bytes characters take.
* `splitBytes?` — the characters in the first bytes, and the rest.
* `slice?` — the characters between two positions.
-/

namespace RewindRelay.Text

/-- How many bytes characters take. -/
def byteLength : List Char → Nat
  | [] => 0
  | c :: rest => c.utf8Size + byteLength rest

/-- The characters in the first bytes of a text and the rest; nothing if a character is torn, or if
there are not so many bytes. -/
def splitBytes? : Nat → List Char → Option (List Char × List Char)
  | 0, cs => some ([], cs)
  | _ + 1, [] => none
  | n + 1, c :: cs =>
    if c.utf8Size ≤ n + 1 then
      (splitBytes? (n + 1 - c.utf8Size) cs).map fun (front, rest) => (c :: front, rest)
    else none

/-- The characters between two positions; nothing if a character is torn. -/
def slice? (cs : List Char) (first last : Nat) : Option (List Char) :=
  (splitBytes? first cs).bind fun (_, rest) =>
    (splitBytes? (last - first) rest).map fun (part, _) => part

end RewindRelay.Text
