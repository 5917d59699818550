/-!
# Blank characters

Settings may be surrounded by blanks of any script, so trimming follows the Unicode property
`White_Space` and not the ASCII blanks alone.

* `isBlank` — the property, as a table of ranges.
* `trim` — a text without blanks at either end.
-/

namespace RewindRelay.Text

/-- The ranges of code points that are blank, ends included. -/
def blankRanges : List (Nat × Nat) :=
  [(0x09, 0x0d), (0x20, 0x20), (0x85, 0x85), (0xa0, 0xa0), (0x1680, 0x1680), (0x2000, 0x200a),
   (0x2028, 0x2029), (0x202f, 0x202f), (0x205f, 0x205f), (0x3000, 0x3000)]

/-- Is the character blank in some script? -/
def isBlank (c : Char) : Bool :=
  blankRanges.any fun (first, last) => first ≤ c.toNat ∧ c.toNat ≤ last

/-- A text without blanks at either end. -/
def trim (text : String) : String :=
  String.ofList ((text.toList.dropWhile isBlank).reverse.dropWhile isBlank).reverse

end RewindRelay.Text
