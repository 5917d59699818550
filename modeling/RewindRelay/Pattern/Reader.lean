import RewindRelay.Pattern.Bracket
import RewindRelay.Text.Alphanumeric
/-!
# Reading patterns

A pattern is a choice between sequences of atoms, classes and groups, each of which may be repeated.
Groups can have names and flags of their own; flags that stand alone hold to the end of the group
they stand in.

* `Reader` — what has been read of a pattern.
* `isUsable` — can a pattern be used?
-/

namespace RewindRelay.Pattern

/-! ## Groups -/

/-- What has been read of a group. -/
structure Body where
  /-- The finished sequences to choose from. -/
  choices : Parts := {}
  /-- The last sequence. -/
  sequence : Parts := {}
  /-- How deeply its last item is nested, if that one can be repeated. -/
  last : Option Nat := none
  deriving DecidableEq, Repr

namespace Body

def add (b : Body) (height : Nat) : Body :=
  { b with sequence := b.sequence.add height, last := some height }

/-- Flags in the sequence, which cannot be repeated. -/
def addFlags (b : Body) : Body := { b with sequence := b.sequence.add 0, last := none }

/-- Repeats the last item, if it can be repeated.  A repetition can be repeated again. -/
def repeat? (b : Body) : Option Body :=
  b.last.map fun height =>
    { b with
      sequence := { b.sequence with tallest := max b.sequence.tallest (height + 1) }
      last := some (height + 1) }

/-- Ends the sequence and starts another one. -/
def choose (b : Body) : Body := { choices := b.choices.add b.sequence.height }

def height (b : Body) : Nat := (b.choices.add b.sequence.height).height

end Body

/-! ## The start of a group -/

/-- Can the name of a group start with this character? -/
def isNameStart (c : Char) : Bool := c == '_' || Text.isAlphabetic c

/-- Can the character stand in the name of a group? -/
def isNamePart (c : Char) : Bool :=
  c == '_' || c == '.' || c == '[' || c == ']' || Text.isAlphanumeric c

/-- Reads the name of a group up to the angle bracket behind it. -/
def readName? (cs : List Char) : Option (List Char × List Char) :=
  match cs.takeWhile (· != '>'), cs.dropWhile (· != '>') with
  | c :: name, '>' :: rest =>
    if isNameStart c && name.all isNamePart then some (c :: name, rest) else none
  | _, _ => none

/-- What flags after a question mark are for. -/
inductive FlagScope
  /-- The rest of the enclosing group. -/
  | rest
  | group
  deriving DecidableEq, Repr

/-- Reads flags, and the colon or parenthesis behind them.  None may stand twice, and a minus must
have something to turn off. -/
def readFlags? (f : Flags) (cs : List Char) : Option ((Flags × FlagScope) × List Char) :=
  let isEnd := fun c : Char => c == ':' || c == ')'
  let text := cs.takeWhile fun c => !isEnd c
  if text.Nodup ∧ text.getLast? ≠ some '-' then
    (f.setAll text).bind fun flags =>
      match cs.dropWhile fun c => !isEnd c with
      | ':' :: rest => some ((flags, .group), rest)
      | ')' :: rest => if text.isEmpty then none else some ((flags, .rest), rest)
      | _ => none
  else none

/-! ## Patterns -/

/-- What has been read of a pattern. -/
structure Reader where
  flags : Flags := {}
  /-- The names of the groups so far, which must differ. -/
  names : List (List Char) := []
  body : Body := {}
  /-- The groups around, the innermost first, with the flags that hold again after it. -/
  outer : List (Flags × Body) := []

namespace Reader

def add (r : Reader) (height : Nat) : Reader := { r with body := r.body.add height }

def enter (r : Reader) (f : Flags) : Reader :=
  { r with flags := f, body := {}, outer := (r.flags, r.body) :: r.outer }

def enterNamed? (r : Reader) (cs : List Char) : Option (Reader × List Char) :=
  (readName? cs).bind fun (name, rest) =>
    if r.names.contains name then none
    else some ({ r.enter r.flags with names := name :: r.names }, rest)

def open? (r : Reader) (cs : List Char) : Option (Reader × List Char) :=
  match r.flags.skip cs with
  | '?' :: 'P' :: '<' :: rest | '?' :: '<' :: rest => r.enterNamed? rest
  | '?' :: rest =>
    (readFlags? r.flags rest).map fun ((flags, scope), rest) =>
      match scope with
      | .group => (r.enter flags, rest)
      | .rest => ({ r with flags, body := r.body.addFlags }, rest)
  | rest => some (r.enter r.flags, rest)

def close? (r : Reader) : Option Reader :=
  match r.outer with
  | [] => none
  | (flags, body) :: outer => some { r with flags, body := body.add (r.body.height + 1), outer }

def addAtom? (r : Reader) (atom : Atom) : Option Reader :=
  if atom.isUsable r.flags then some (r.add 0) else none

/-- Drops the mark right behind a repetition that makes it a lazy one. -/
def dropLazyMark : List Char → List Char
  | '?' :: rest => rest
  | rest => rest

/-- Reads the next item.  The end answers how deeply the pattern is nested.  A brace is an error:
the braces of a filter leave none to close it. -/
def step (r : Reader) (cs : List Char) : Option (Step Reader Nat × List Char) :=
  match r.flags.skip cs with
  | [] => if r.outer.isEmpty then some (.done r.body.height, []) else none
  | '(' :: rest => (r.open? rest).map fun (r, rest) => (.more r, rest)
  | ')' :: rest => r.close?.map fun r => (.more r, rest)
  | '|' :: rest => some (.more { r with body := r.body.choose }, rest)
  | '[' :: rest => (readClass r.flags rest).map fun (height, rest) => (.more (r.add height), rest)
  | '?' :: rest | '*' :: rest | '+' :: rest =>
    r.body.repeat?.map fun body => (.more { r with body }, dropLazyMark rest)
  | '{' :: _ => none
  | '\\' :: rest =>
    (Atom.ofEscape? r.flags rest).bind fun (atom, rest) =>
      (r.addAtom? atom).map fun r => (.more r, rest)
  | '^' :: rest | '$' :: rest => some (.more (r.add 0), rest)
  | '.' :: rest => if r.flags.bytewise then none else some (.more (r.add 0), rest)
  | c :: rest => (r.addAtom? (.literal c false)).map fun r => (.more r, rest)

end Reader

/-- How deeply a pattern may be nested. -/
def greatestHeight : Nat := 250

def isUsable (text : List Char) : Bool :=
  match readAll Reader.step {} text with
  | some (height, _) => height ≤ greatestHeight
  | none => false

end RewindRelay.Pattern
