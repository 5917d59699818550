import RewindRelay.Store.Basic
/-!
# Finding chunks in a store

Listeners ask for audio by its distance from the newest chunk or by the time it was on air.  An
offset counts chunks back from the newest one.  A timestamp is looked up among the windows of the
chunks: the window that covers it, or else the one with the nearer edge.  Where the time to the next
chunk is needed for this and cannot be taken, the lookup fails.

* `nearest` — the position of the window that fits a timestamp best, in any arithmetic.
* `Query` — an offset or a timestamp.
* `Store.at?`, `Store.range` — one chunk, or a run of chunks toward the newest.
* `Store.behind` — the run from an offset on, which is always there.
* `Store.indexAfter`, `Store.indexOfOffset?`, `Store.slice` — positions for live delivery.
-/

namespace RewindRelay

/-! ## By time -/

/-- The position of the window that fits a timestamp best.  The windows that start at or before
the timestamp come first; the last of them wins if it covers the timestamp or is at least as near
as the window after it. -/
def nearest {α : Type} (A : Arithmetic α) (windows : List (Window α)) (ts : Int64) :
    Except Fault (Option Nat) :=
  let past := windows.takeWhile fun w => w.start ≤ ts
  match past.getLast?, (windows.drop past.length).head? with
  | none, none => .ok none
  | none, some _ => .ok (some 0)
  | some _, none => .ok (some (past.length - 1))
  | some before, some after =>
    if before.covers A ts then .ok (some (past.length - 1))
    else (A.elapsed ts after.start).map fun gap =>
      if A.lt gap (A.sub (A.ofTime ts) (before.stop A)) then some past.length
      else some (past.length - 1)

/-! ## Queries -/

/-- A position in a store. -/
inductive Query
  /-- Chunks behind the newest one. -/
  | offset (chunks : Nat)
  /-- Milliseconds since the epoch. -/
  | timestamp (ts : Int64)

namespace Store

/-- The position of the chunk that fits a timestamp best. -/
def indexOfTimestamp? (s : Store) (ts : Int64) : Except Fault (Option Nat) :=
  nearest .double (s.chunks.map Chunk.window) ts

/-- The position that an offset means.  Offsets past the oldest chunk mean the oldest chunk. -/
def indexBehind? (s : Store) (offset : Nat) : Option Nat :=
  if s.length = 0 then none else some (s.length - 1 - offset)

/-- The position a query means. -/
def resolve? (s : Store) : Query → Except Fault (Option Nat)
  | .offset chunks => .ok (s.indexBehind? chunks)
  | .timestamp ts => s.indexOfTimestamp? ts

/-- The chunks from one position up to another, the second excluded. -/
def slice (s : Store) (first last : Nat) : List Chunk := (s.chunks.take last).drop first

/-- Up to `length` chunks from a position toward the newest chunk. -/
def onward (s : Store) (position : Option Nat) (length : Nat) : List Chunk :=
  match position with
  | some first => s.slice first (min (first + length) s.length)
  | none => []

def at? (s : Store) (q : Query) : Except Fault (Option Chunk) :=
  (s.resolve? q).map fun position => position.bind fun i => s.chunks[i]?

/-- Up to `length` chunks from the position of a query toward the newest chunk. -/
def range (s : Store) (q : Query) (length : Nat) : Except Fault (List Chunk) :=
  (s.resolve? q).map fun position => s.onward position length

/-- Up to `length` chunks from an offset toward the newest chunk. -/
def behind (s : Store) (offset length : Nat) : List Chunk :=
  s.onward (s.indexBehind? offset) length

/-- The offset of the chunk that fits a timestamp best. -/
def offsetOfTimestamp? (s : Store) (ts : Int64) : Except Fault (Option Nat) :=
  (s.indexOfTimestamp? ts).map fun position => position.map fun i => s.length - 1 - i

/-- The position of the first chunk newer than a timestamp. -/
def indexAfter (s : Store) (ts : Int64) : Nat :=
  (s.chunks.takeWhile fun c => c.ts ≤ ts).length

/-- The position of the chunk at an offset, if the store reaches that far back. -/
def indexOfOffset? (s : Store) (offset : Nat) : Option Nat :=
  if offset < s.length then some (s.length - 1 - offset) else none

end Store

end RewindRelay
