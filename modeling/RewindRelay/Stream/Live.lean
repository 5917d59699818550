import RewindRelay.Stream.Basic
/-!
# Live audio

A live chunk is stored and, if it became the newest, delivered.  Each seated listener is held at
its offset behind the newest chunk and is given everything between what it was given last and
that position.

* `Stream.push` — a live chunk.
* `Stream.deliverTo` — the chunks that a listener is due.
* `Stream.fanOut` — delivery to all listeners.
-/

namespace RewindRelay

namespace Stream

/-- The chunks that a listener in this seat is due: from the one after its cursor, or from its
position when it has none, up to its position. -/
def due (store : Store) (seat : Seat) : List Chunk :=
  match store.indexOfOffset? seat.offset with
  | none => []
  | some position =>
    let first := match seat.cursor with
      | some ts => store.indexAfter ts
      | none => position
    store.slice first (position + 1)

/-- Gives a listener what it is due. -/
def deliverTo (store : Store) (l : Listener) : Listener :=
  match l.seat with
  | none => l
  | some seat =>
    match (due store seat).getLast? with
    | none => l
    | some last =>
      { l.enqueue (due store seat) with seat := some { seat with cursor := some last.ts } }

def fanOut (s : Stream) : Stream := { s with listeners := s.listeners.map (deliverTo s.store) }

/-- What is playing after a chunk that may say so. -/
def playing (s : Stream) (c : Chunk) : Option Metadata := c.metadata.or s.nowPlaying

/-- Takes a live chunk.  Only a chunk that became the newest is delivered. -/
def push (s : Stream) (c : Chunk) : Except StreamError InsertOutcome × Stream :=
  if s.destroyed then (.error (.destroyed s.name), s)
  else
    let (outcome, stored) := s.onStore fun store => store.insert c
    match outcome with
    | .outOfOrder => (.error (.outOfOrder c.ts), stored)
    | .appended => (.ok outcome, fanOut { stored with nowPlaying := stored.playing c })
    | .prepended | .duplicate => (.ok outcome, stored)

end Stream

end RewindRelay
