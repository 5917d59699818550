import RewindRelay.Chunk
/-!
# The chunk store

A store keeps the chunks of a stream oldest first, at most `capacity` of them.  Chunks enter at
the end their timestamp belongs to: new audio at the newest end, history at the oldest.  When the
store is over its capacity the oldest chunks leave, even one that has just come in.

* `Store` — the chunks, the capacity and the counters.
* `Store.position?` — where the chunk with a timestamp is.
* `InsertOutcome` — what became of a chunk.
* `Store.insert`, `Store.setCapacity`, `Store.clear` — the operations.
-/

namespace RewindRelay

/-- What became of a chunk that was offered to a store. -/
inductive InsertOutcome
  /-- Stored at the newest end. -/
  | appended
  /-- Stored at the oldest end. -/
  | prepended
  /-- A chunk with this timestamp is there already. -/
  | duplicate
  /-- The timestamp lies inside the stored span, where there is no chunk. -/
  | outOfOrder
  deriving DecidableEq, Repr

def InsertOutcome.isStored : InsertOutcome → Bool
  | .appended | .prepended => true
  | _ => false

/-- What a store has done since it was made. -/
structure Counters where
  inserted : Nat := 0
  evicted : Nat := 0
  duplicates : Nat := 0
  outOfOrder : Nat := 0
  deriving DecidableEq, Repr

/-- A bounded sequence of chunks, oldest first. -/
structure Store where
  chunks : List Chunk := []
  capacity : Nat
  counters : Counters := {}

namespace Store

/-- The capacity of a store that never evicts. -/
def unbounded : Nat := Decimal.maxCount

def empty (capacity : Nat) : Store := { capacity }

def length (s : Store) : Nat := s.chunks.length

def oldest? (s : Store) : Option Chunk := s.chunks.head?

def newest? (s : Store) : Option Chunk := s.chunks.getLast?

/-- The position of the chunk with this timestamp among chunks in order, which are halved until it
is found.  `before` chunks stand in front of them. -/
def bisect (ts : Int64) : (limit before : Nat) → List Chunk → Option Nat
  | 0, _, _ => none
  | limit + 1, before, chunks =>
    let half := chunks.length / 2
    match chunks.drop half with
    | [] => none
    | middle :: newer =>
      if middle.ts = ts then some (before + half)
      else if middle.ts < ts then bisect ts limit (before + half + 1) newer
      else bisect ts limit before (chunks.take half)

def position? (s : Store) (ts : Int64) : Option Nat := bisect ts s.length 0 s.chunks

def holds (s : Store) (ts : Int64) : Bool := (s.position? ts).isSome

/-- Where a chunk with this timestamp belongs. -/
def placement (s : Store) (ts : Int64) : InsertOutcome :=
  match s.oldest?, s.newest? with
  | some oldest, some newest =>
    if newest.ts < ts then .appended
    else if ts < oldest.ts then .prepended
    else if s.holds ts then .duplicate
    else .outOfOrder
  | _, _ => .appended

/-- Drops the oldest chunks until the store is within its capacity. -/
def evict (s : Store) : Store :=
  let surplus := s.length - s.capacity
  { s with
    chunks := s.chunks.drop surplus
    counters := { s.counters with evicted := s.counters.evicted + surplus } }

/-- Offers a chunk to the store. -/
def insert (s : Store) (c : Chunk) : InsertOutcome × Store :=
  let counters := s.counters
  match s.placement c.ts with
  | .appended =>
    (.appended, evict { s with
      chunks := s.chunks ++ [c]
      counters := { counters with inserted := counters.inserted + 1 } })
  | .prepended =>
    (.prepended, evict { s with
      chunks := c :: s.chunks
      counters := { counters with inserted := counters.inserted + 1 } })
  | .duplicate =>
    (.duplicate, { s with counters := { counters with duplicates := counters.duplicates + 1 } })
  | .outOfOrder =>
    (.outOfOrder, { s with counters := { counters with outOfOrder := counters.outOfOrder + 1 } })

/-- Changes the capacity; surplus chunks leave at once. -/
def setCapacity (s : Store) (capacity : Nat) : Store := evict { s with capacity }

/-- Removes every chunk.  Capacity and counters stay. -/
def clear (s : Store) : Store := { s with chunks := [] }

end Store

end RewindRelay
