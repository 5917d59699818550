/-!
# Sets of bytes

What a class of a pattern asks for among bytes is a set with one bit for each byte.

* `ByteSet.ofRanges` — the bytes in some ranges.
* `ByteSet.withBothCases` — each letter in both its cases.
* `ByteSet.isAscii` — are all members ASCII?
* `ByteSet.named?` — the sets that have a name.
-/

namespace RewindRelay.Pattern

/-- A set of bytes, one bit for each. -/
abbrev ByteSet := BitVec 256

namespace ByteSet

def empty : ByteSet := 0#256

/-- The bytes from one up to another, both of them included. -/
def ofRange (first last : Nat) : ByteSet :=
  (BitVec.allOnes 256 <<< first) &&& (BitVec.allOnes 256 >>> (255 - last))

def ofRanges (ranges : List (Nat × Nat)) : ByteSet :=
  ranges.foldl (fun s (first, last) => s ||| ofRange first last) empty

/-- The members, and each letter among them in both its cases. -/
def withBothCases (s : ByteSet) : ByteSet :=
  s ||| ((s &&& ofRange 65 90) <<< 32) ||| ((s &&& ofRange 97 122) >>> 32)

def isAscii (s : ByteSet) : Bool := s >>> 128 == empty

/-- The ranges of the sets that have a name. -/
def namedRanges? : String → Option (List (Nat × Nat))
  | "alnum" => some [(48, 57), (65, 90), (97, 122)]
  | "alpha" => some [(65, 90), (97, 122)]
  | "ascii" => some [(0, 127)]
  | "blank" => some [(9, 9), (32, 32)]
  | "cntrl" => some [(0, 31), (127, 127)]
  | "digit" => some [(48, 57)]
  | "graph" => some [(33, 126)]
  | "lower" => some [(97, 122)]
  | "print" => some [(32, 126)]
  | "punct" => some [(33, 47), (58, 64), (91, 96), (123, 126)]
  | "space" => some [(9, 13), (32, 32)]
  | "upper" => some [(65, 90)]
  | "word" => some [(48, 57), (65, 90), (95, 95), (97, 122)]
  | "xdigit" => some [(48, 57), (65, 70), (97, 102)]
  | _ => none

def named? (name : String) : Option ByteSet := (namedRanges? name).map ofRanges

end ByteSet

end RewindRelay.Pattern
