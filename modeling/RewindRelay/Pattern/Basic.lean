import RewindRelay.Text.Blank
import RewindRelay.Text.Pieces
/-!
# Patterns

A log filter may ask for fields whose text matches a pattern, that is a regular expression.  The
events of this program have no such fields, so all that matters about a pattern is whether it can be
used at all: a filter with a pattern that cannot be used is not a filter.

Patterns are matched with code points or, where they ask for it, with bytes.  Code points come
without tables of scripts, so what needs such a table — digits, spaces and word characters, or a
letter in both cases — can be asked of bytes only.

* `Flags` — how a pattern is read from some place on.
* `Parts` — how deeply parts that stand together are nested.
* `readAll` — reads step by step until a step says that it was the last.
-/

namespace RewindRelay.Pattern

/-! ## Flags -/

/-- How a pattern is read from some place on. -/
structure Flags where
  /-- Are bytes matched, and not code points? -/
  bytewise : Bool := false
  /-- Does a letter stand for both its cases? -/
  caseless : Bool := false
  /-- Are blanks and comments skipped? -/
  spaced : Bool := false
  deriving DecidableEq, Repr

/-- Skips blanks, and comments from a hash to the end of the line. -/
def skipBlanks (inComment : Bool) : List Char → List Char
  | [] => []
  | c :: rest =>
    if inComment then skipBlanks (c != '\n') rest
    else if Text.isBlank c then skipBlanks false rest
    else if c = '#' then skipBlanks true rest
    else c :: rest

namespace Flags

/-- The characters that count from here on. -/
def skip (f : Flags) (cs : List Char) : List Char := if f.spaced then skipBlanks false cs else cs

/-- Turns a flag on or off, if there is one of that name.  Some flags change what a pattern matches,
but not whether it can be used. -/
def set (on : Bool) (f : Flags) : Char → Option Flags
  | 'i' => some { f with caseless := on }
  | 'u' => some { f with bytewise := !on }
  | 'x' => some { f with spaced := on }
  | 'm' | 's' | 'U' | 'R' => some f
  | _ => none

/-- Turns on the flags before a minus, and off those after it. -/
def setAll (f : Flags) (text : List Char) : Option Flags :=
  let (on, off) := Text.splitAtFirst (· == '-') text
  (on.foldlM (set true) f).bind fun f => off.foldlM (set false) f

end Flags

/-! ## Nesting -/

/-- How many parts stand together, and how deeply the deepest of them is nested. -/
structure Parts where
  count : Nat := 0
  tallest : Nat := 0
  deriving DecidableEq, Repr

namespace Parts

def add (p : Parts) (height : Nat) : Parts :=
  { count := p.count + 1, tallest := max p.tallest height }

/-- A part that stands alone is not nested any deeper for that; several parts are. -/
def height (p : Parts) : Nat := if p.count < 2 then p.tallest else p.tallest + 1

end Parts

/-! ## Steps -/

/-- What a step of a reader leads to. -/
inductive Step (σ α : Type)
  | more (state : σ)
  | done (result : α)

/-- Takes steps until one of them is the last.  A step before it that reads nothing leads
nowhere. -/
def readAll {σ α : Type} (step : σ → List Char → Option (Step σ α × List Char)) (state : σ)
    (cs : List Char) : Option (α × List Char) :=
  match step state cs with
  | none => none
  | some (.done result, rest) => some (result, rest)
  | some (.more state, rest) =>
    if _h : rest.length < cs.length then readAll step state rest else none
termination_by cs.length

end RewindRelay.Pattern
