import RewindRelay.Pattern.Basic
import RewindRelay.Pattern.ByteSet
/-!
# Atoms of a pattern

An atom is what a pattern asks for at one place.  A character stands for itself unless it has a
meaning in patterns; a backslash gives it one or takes it away.

* `Atom.ofEscape?` — what follows a backslash.
* `Atom.isUsable` — can the atom stand between others?
* `Atom.members?` — what it adds to a class.
-/

namespace RewindRelay.Pattern

/-- What a pattern asks for at one place. -/
inductive Atom
  /-- A character.  Written as a byte, it is one also where characters take several bytes. -/
  | literal (c : Char) (asByte : Bool)
  | set (s : ByteSet)
  /-- Something about the place, and not about what stands there. -/
  | assertion
  deriving DecidableEq, Repr

/-! ## Characters by number -/

def hexDigit? (c : Char) : Option Nat :=
  if '0' ≤ c ∧ c ≤ '9' then some (c.toNat - 48)
  else if 'A' ≤ c ∧ c ≤ 'F' then some (c.toNat - 55)
  else if 'a' ≤ c ∧ c ≤ 'f' then some (c.toNat - 87)
  else none

/-- Reads that many hexadecimal digits behind a number. -/
def readHex (f : Flags) : Nat → Nat → List Char → Option (Nat × List Char)
  | 0, value, cs => some (value, cs)
  | count + 1, value, cs =>
    match f.skip cs with
    | c :: rest => (hexDigit? c).bind fun digit => readHex f count (16 * value + digit) rest
    | [] => none

def charOf? (value : Nat) : Option Char :=
  if (Char.ofNat value).toNat = value then some (Char.ofNat value) else none

/-- A character by its number, which has two digits for a byte. -/
def Atom.ofNumber? (f : Flags) (digits : Nat) (cs : List Char) : Option (Atom × List Char) :=
  (readHex f digits 0 cs).bind fun (value, rest) =>
    (charOf? value).map fun c => (.literal c (digits == 2), rest)

/-! ## Escapes -/

/-- The characters that are written by a letter. -/
def control? : Char → Option Char
  | 'a' => some '\x07'
  | 'f' => some '\x0c'
  | 'n' => some '\n'
  | 'r' => some '\r'
  | 't' => some '\t'
  | 'v' => some '\x0b'
  | _ => none

/-- The sets that are written by a letter. -/
def shorthand? : Char → Option ByteSet
  | 'd' => ByteSet.named? "digit"
  | 's' => ByteSet.named? "space"
  | 'w' => ByteSet.named? "word"
  | _ => none

/-- What follows a backslash.  Sets and the ends of words can be asked of bytes only; what no
escape stands for is left for later. -/
def Atom.ofEscape? (f : Flags) : List Char → Option (Atom × List Char)
  | 'x' :: rest => ofNumber? f 2 rest
  | 'u' :: rest => ofNumber? f 4 rest
  | 'U' :: rest => ofNumber? f 8 rest
  | 'A' :: rest | 'z' :: rest => some (.assertion, rest)
  | 'b' :: rest | 'B' :: rest | '<' :: rest | '>' :: rest =>
    if f.bytewise then some (.assertion, rest) else none
  | c :: rest =>
    match control? c, shorthand? c with
    | some c, _ => some (.literal c false, rest)
    | none, some s => if f.bytewise then some (.set s, rest) else none
    | none, none =>
      if c.toNat < 128 && !c.isAlphanum then some (.literal c false, rest) else none
  | [] => none

namespace Atom

/-- Can the atom stand between others?  What matches has to be whole characters. -/
def isUsable (f : Flags) : Atom → Bool
  | .literal c asByte => if f.bytewise then !asByte || c.toNat < 128 else !f.caseless
  | .set s => s.isAscii
  | .assertion => true

/-- The character that the atom stands for in a class, if it can. -/
def char? (f : Flags) : Atom → Option Char
  | .literal c _ =>
    if (if f.bytewise then c.toNat < 128 else f.caseless = false) then some c else none
  | _ => none

/-- What the atom adds to a class, if it can. -/
def members? (f : Flags) : Atom → Option ByteSet
  | .set s => some s
  | atom => (atom.char? f).map fun c => .ofRange c.toNat c.toNat

end Atom

end RewindRelay.Pattern
