import RewindRelay.Pattern.Atom
/-!
# Classes in brackets

A class in brackets lists characters, ranges, and classes of its own; intersections, differences
and symmetric differences of such lists are classes too.

* `Description` — a set, and how deeply its description is nested.
* `OpenClass` — a class whose closing bracket is still to come.
* `readClass` — a class from behind its bracket.
-/

namespace RewindRelay.Pattern

/-- A set, and how deeply its description is nested. -/
structure Description where
  members : ByteSet
  height : Nat
  deriving DecidableEq, Repr

/-- An operation on the sets on both sides of it. -/
inductive SetOperation
  | intersection
  | difference
  | symmetricDifference
  deriving DecidableEq, Repr

def SetOperation.apply : SetOperation → ByteSet → ByteSet → ByteSet
  | .intersection, s, t => s &&& t
  | .difference, s, t => s &&& ~~~t
  | .symmetricDifference, s, t => s ^^^ t

/-! ## Open classes -/

/-- A class whose closing bracket is still to come. -/
structure OpenClass where
  negated : Bool := false
  /-- Has nothing but hyphens been read? -/
  atStart : Bool := true
  /-- What stands before the last operation, and which one that is. -/
  left : Option (Description × SetOperation) := none
  /-- What has been listed since. -/
  members : ByteSet := .empty
  parts : Parts := {}

namespace OpenClass

def add (o : OpenClass) (d : Description) : OpenClass :=
  { o with atStart := false, members := o.members ||| d.members, parts := o.parts.add d.height }

/-- The members in both cases where case does not matter. -/
def folded (f : Flags) (s : ByteSet) : ByteSet := if f.caseless then s.withBothCases else s

/-- The set so far. -/
def value (f : Flags) (o : OpenClass) : Description :=
  match o.left with
  | none => { members := o.members, height := o.parts.height }
  | some (d, operation) =>
    { members := operation.apply (folded f d.members) (folded f o.members)
      height := max d.height o.parts.height + 1 }

/-- Reads an operation.  What has been read is on its left. -/
def operate (f : Flags) (operation : SetOperation) (o : OpenClass) : OpenClass :=
  { o with atStart := false, left := some (o.value f, operation), members := .empty, parts := {} }

/-- The class once it is closed.  Bytes that are not ASCII are not whole characters. -/
def close? (f : Flags) (o : OpenClass) : Option Description :=
  let d := o.value f
  let members := if o.negated then ~~~folded f d.members else folded f d.members
  if f.bytewise && !members.isAscii then none else some { members, height := d.height + 1 }

def start (f : Flags) (cs : List Char) : OpenClass × List Char :=
  match f.skip cs with
  | '^' :: rest => ({ negated := true }, rest)
  | rest => ({}, rest)

end OpenClass

/-! ## Members -/

/-- Reads a class that has a name, from behind its bracket.  The flag says that all but its members
are meant. -/
def readNamed? (cs : List Char) : Option ((ByteSet × Bool) × List Char) :=
  match cs with
  | ':' :: rest =>
    let (negated, rest) := match rest with
      | '^' :: rest => (true, rest)
      | rest => (false, rest)
    let name := String.ofList (rest.takeWhile (· != ':'))
    match rest.dropWhile (· != ':') with
    | ':' :: ']' :: after => (ByteSet.named? name).map fun s => ((s, negated), after)
    | _ => none
  | _ => none

def readAtom? (f : Flags) : List Char → Option (Atom × List Char)
  | '\\' :: rest => Atom.ofEscape? f rest
  | c :: rest => some (.literal c false, rest)
  | [] => none

/-- The next character that is not blank.  A hash is passed over, but not the comment behind it. -/
def peek? (f : Flags) (cs : List Char) : Option Char :=
  if f.spaced then
    match cs.dropWhile Text.isBlank with
    | '#' :: rest => (rest.dropWhile Text.isBlank).head?
    | rest => rest.head?
  else cs.head?

/-- Reads a character, an escape or a range.  A hyphen before the end of the class or before another
hyphen makes no range. -/
def readMembers? (f : Flags) (cs : List Char) : Option (ByteSet × List Char) :=
  (readAtom? f cs).bind fun (atom, rest) =>
    match f.skip rest with
    | '-' :: after =>
      if peek? f after = some ']' || peek? f after = some '-' then
        (atom.members? f).map fun s => (s, '-' :: after)
      else
        (readAtom? f (f.skip after)).bind fun (atom', rest) =>
          match atom.char? f, atom'.char? f with
          | some first, some last =>
            if first ≤ last then some (.ofRange first.toNat last.toNat, rest) else none
          | _, _ => none
    | rest => (atom.members? f).map fun s => (s, rest)

/-! ## Classes -/

/-- Classes within each other, the innermost first. -/
structure ClassReader where
  inner : OpenClass
  outer : List OpenClass := []

namespace ClassReader

def add (r : ClassReader) (s : ByteSet) : ClassReader :=
  { r with inner := r.inner.add { members := s, height := 0 } }

def operate (f : Flags) (operation : SetOperation) (r : ClassReader) : ClassReader :=
  { r with inner := r.inner.operate f operation }

/-- Closes the innermost class, which is then listed in the next one. -/
def close? (f : Flags) (r : ClassReader) : Option (Step ClassReader Description) :=
  (r.inner.close? f).map fun d =>
    match r.outer with
    | [] => .done d
    | o :: outer => .more { inner := o.add d, outer }

/-- Reads a bracket within a class: a class with a name, or a class of its own. -/
def nest? (f : Flags) (r : ClassReader) (cs : List Char) : Option (ClassReader × List Char) :=
  match readNamed? cs with
  | some ((s, negated), rest) =>
    if f.bytewise then if negated then none else some (r.add s, rest)
    else if f.caseless then none
    else some (r.add (if negated then ~~~s else s), rest)
  | none =>
    let (o, rest) := OpenClass.start f cs
    some ({ inner := o, outer := { r.inner with atStart := false } :: r.outer }, rest)

/-- Reads a character at the start of a class, where hyphens stand for themselves and so does a
bracket that would leave the class empty. -/
def lead? (f : Flags) (r : ClassReader) (c : Char) : Option ClassReader :=
  ((Atom.literal c false).members? f).map fun s =>
    let r := r.add s
    { r with inner := { r.inner with atStart := c == '-' } }

/-- Does a character stand for itself because it is at the start? -/
def leads (r : ClassReader) (c : Char) : Bool :=
  r.inner.atStart && (c == '-' || (c == ']' && r.inner.parts.count == 0))

/-- Reads the next member, operation or bracket. -/
def step (f : Flags) (r : ClassReader) (cs : List Char) :
    Option (Step ClassReader Description × List Char) :=
  match f.skip cs with
  | [] => none
  | c :: rest =>
    if r.leads c then (r.lead? f c).map fun r => (.more r, rest)
    else match c, rest with
    | '[', rest => (r.nest? f rest).map fun (r, rest) => (.more r, rest)
    | ']', rest => (r.close? f).map fun result => (result, rest)
    | '&', '&' :: rest => some (.more (r.operate f .intersection), rest)
    | '-', '-' :: rest => some (.more (r.operate f .difference), rest)
    | '~', '~' :: rest => some (.more (r.operate f .symmetricDifference), rest)
    | c, rest => (readMembers? f (c :: rest)).map fun (s, rest) => (.more (r.add s), rest)

end ClassReader

/-- Reads a class from behind its bracket.  It answers how deeply the class is nested. -/
def readClass (f : Flags) (cs : List Char) : Option (Nat × List Char) :=
  let (o, rest) := OpenClass.start f cs
  (readAll (ClassReader.step f) { inner := o } rest).map fun (d, rest) => (d.height, rest)

end RewindRelay.Pattern
