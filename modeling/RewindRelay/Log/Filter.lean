import RewindRelay.Decimal.Reader
import RewindRelay.Log.Level
import RewindRelay.Pattern.Reader
import RewindRelay.Text.Slice
/-!
# Log filters

A filter is a list of directives.  A directive gives a level, and may say for which targets it
holds: `warn,relay=debug` lets warnings through, and of everything whose target starts with
`relay` also what is less important.  Directives that hold only inside a span of code are read, but
no event of this program is inside one.

* `Event` — what is logged.
* `Directive.read` — one directive.
* `Filter.read` — a list of directives.
* `Filter.passes` — does the filter let an event through?
-/

namespace RewindRelay.Log

/-- Something that is logged, with the part of the program that it comes from. -/
structure Event where
  level : Level
  target : String
  message : String
  deriving DecidableEq, Repr

/-- A directive of a filter. -/
structure Directive where
  /-- How the targets start for which it holds; nothing for all of them. -/
  target : Option String := none
  /-- The fields that an event must have. -/
  fields : List String := []
  /-- Does it hold only inside a span? -/
  inSpan : Bool := false
  /-- The least important level that is let through; nothing when none is. -/
  level : Option Level := some .trace
  deriving DecidableEq, Repr

/-- The directives of a filter in order. -/
abbrev Filter := List Directive

/-- Why a directive cannot be read. -/
inductive Fault
  | unreadable
  /-- A part of it starts or ends within a character. -/
  | torn
  deriving DecidableEq, Repr

/-! ## Reading directives -/

/-- A level in a directive, by number or name.  Zero and `off` let nothing through. -/
def readLevel? (text : String) : Option (Option Level) :=
  match Decimal.readCount? text with
  | some n =>
    if n = 0 then some none
    else (Level.all.find? fun level => level.rank == n).map some
  | none => if text.toLower = "off" then some none else (Level.named? true text).map some

/-- Can a field be asked for this value?  It is a number or a pattern; truth values are patterns
too. -/
def isValue (text : List Char) : Bool :=
  (Decimal.readDouble? (String.ofList text)).isSome || Pattern.isUsable text

namespace Directive

/-- The part of a directive that is being read, and where it started. -/
inductive Place
  | start
  /-- A level, or the start of targets. -/
  | word (first : Nat)
  | span (first : Nat)
  | field (first : Nat)
  /-- All fields are read. -/
  | fields
  /-- The span is read. -/
  | closed
  | level (first : Nat)
  deriving DecidableEq, Repr

def isFirst (c : Char) : Bool := Text.isAlphanumeric c || c = '-' || c = ':' || c = '_'

def slice (text : List Char) (first last : Nat) : Except Fault (List Char) :=
  (Text.slice? text first last).elim (.error .torn) .ok

/-- The directive holds for targets that start like this. -/
def setTarget (d : Directive) (text : List Char) : Directive :=
  { d with target := some (String.ofList text) }

/-- Adds a field.  One with a value holds only inside a span. -/
def addField (d : Directive) (text : List Char) : Except Fault Directive :=
  let asking := fun (name : List Char) (inSpan : Bool) =>
    { d with fields := d.fields ++ [String.ofList name], inSpan := d.inSpan || inSpan }
  match Text.pieces (· == '=') text with
  | name :: value :: _ => if isValue value then .ok (asking name true) else .error .unreadable
  | _ => if text.isEmpty then .error .unreadable else .ok (asking text false)

def step (text : List Char) (d : Directive) (i : Nat) :
    Place → Char → Except Fault (Directive × Place)
  | .start, '[' => .ok (d, .span (i + 1))
  | .start, c => if isFirst c then .ok (d, .word i) else .error .unreadable
  | .word first, '=' => (slice text first i).map fun word => (d.setTarget word, .level (i + 1))
  | .word first, '[' => (slice text first i).map fun word => (d.setTarget word, .span (i + 1))
  | .word first, _ => .ok (d, .word first)
  | .span first, ']' => (slice text first i).map fun _ => ({ d with inSpan := true }, .closed)
  | .span first, '{' =>
    (slice text first i).map fun name => ({ d with inSpan := !name.isEmpty }, .field (i + 1))
  | .span first, _ => .ok (d, .span first)
  | .field first, '}' =>
    ((slice text first i).bind d.addField).map fun d => (d, .fields)
  | .field first, _ => .ok (d, .field first)
  | .fields, ']' => .ok (d, .closed)
  | .fields, _ => .error .unreadable
  | .closed, '=' => .ok (d, .level (i + 1))
  | .closed, _ => .error .unreadable
  | .level first, _ => .ok (d, .level first)

/-- Reads the characters from position `i` on. -/
def run (text : List Char) :
    Directive → Place → Nat → List Char → Except Fault (Directive × Place)
  | d, place, _, [] => .ok (d, place)
  | d, place, i, c :: rest =>
    (step text d i place c).bind fun (d, place) => run text d place (i + c.utf8Size) rest

/-- Ends a directive.  A word that is no level is the start of targets, all of whose events are let
through; so are those of targets with an empty level. -/
def finish (text : List Char) (d : Directive) : Place → Except Fault Directive
  | .word first =>
    (slice text first (Text.byteLength text)).map fun word =>
      match readLevel? (String.ofList word) with
      | some level => { d with level, target := none }
      | none => { d with level := some .trace }.setTarget word
  | .level first =>
    (slice text first (Text.byteLength text)).bind fun word =>
      if word.isEmpty then .ok { d with level := some .trace }
      else match readLevel? (String.ofList word) with
        | some level => .ok { d with level }
        | none => .error .unreadable
  | .closed => .ok d
  | _ => .error .unreadable

/-- A directive from its notation.  Positions count from the first character that is not blank, but
parts are taken from where the notation starts. -/
def read (text : String) : Except Fault Directive :=
  (run text.toList {} .start 0 (Text.trim text).toList).bind fun (d, place) =>
    d.finish text.toList place

/-- Does the directive hold for an event?  The only field of an event is its message. -/
def holdsFor (d : Directive) (e : Event) : Bool :=
  !d.inSpan && (d.target.all fun target => e.target.startsWith target) &&
    d.fields.all (· == "message")

/-- How specific a directive is: by the length of its target, then by the number of fields. -/
def specificity (d : Directive) : Nat × Nat :=
  ((d.target.map fun target => target.utf8ByteSize + 1).getD 0, d.fields.length)

/-- Is the second directive at least as specific as the first? -/
def yieldsTo (d d' : Directive) : Bool :=
  let (length, fields) := d.specificity
  let (length', fields') := d'.specificity
  length < length' || (length == length' && fields ≤ fields')

end Directive

namespace Filter

/-- A filter from its notation, or the first fault of its directives.  Without any directive only
errors are let through. -/
def read (text : String) : Except Fault Filter :=
  let pieces := (Text.pieces (· == ',') text.toList).filter fun piece => !piece.isEmpty
  (pieces.mapM fun piece => Directive.read (String.ofList piece)).map fun directives =>
    if directives.isEmpty then [{ level := some .error }] else directives

/-- The directive that decides on an event: the most specific one that holds for it, and of
equally specific ones the last. -/
def deciding? (f : Filter) (e : Event) : Option Directive :=
  f.foldl (fun best d =>
    if d.holdsFor e then
      match best with
      | some b => if b.yieldsTo d then some d else best
      | none => some d
    else best) none

def passes (f : Filter) (e : Event) : Bool :=
  match f.deciding? e with
  | some d => d.level.any fun level => e.level.rank ≤ level.rank
  | none => false

/-- One level for everything, and another one for some targets. -/
def raising (base : Level) (targets : List String) (level : Level) : Filter :=
  { level := some base } :: targets.map fun target => { target := some target, level := some level }

end Filter

end RewindRelay.Log
