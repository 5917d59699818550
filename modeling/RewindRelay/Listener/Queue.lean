import RewindRelay.Chunk
import RewindRelay.Listener.Stats
/-!
# The queue of a listener

Chunks wait in a queue between the stream, which only adds them, and one listener, which only
takes them.  An empty queue is *idle* while more audio can still come, and *finished* once it
never will.  A reader that finds the queue idle may leave a waker, which is called as soon as the
queue changes.

* `Queue` — the waiting chunks and what has been delivered.
* `Queue.enqueue`, `Queue.finish`, `Queue.close` — the stream's side.
* `Queue.read` — the listener's side.
-/

namespace RewindRelay

/-- A handle by which an idle reader is told that the queue has changed. -/
abbrev Waker := Nat

/-- What a read finds. -/
inductive ReadOutcome
  /-- Whole payloads, joined in order. -/
  | data (bytes : Bytes)
  /-- Nothing now, but more may come. -/
  | idle
  /-- Nothing, and nothing more will come. -/
  | finished
  deriving DecidableEq, Repr

/-- The chunks that wait for a listener, and what it has been given. -/
structure Queue where
  chunks : List Chunk := []
  /-- Payload bytes in `chunks`. -/
  queuedBytes : Nat := 0
  closed : Bool := false
  /-- The queue is finished as soon as it is empty. -/
  lastCall : Bool := false
  /-- The reader to be told of the next change. -/
  waker : Option Waker := none
  /-- The readers that have been told, latest first. -/
  woken : List Waker := []
  total : ListenStats := {}
  interval : ListenStats := {}

namespace Queue

/-- Tells the waiting reader, if there is one. -/
def wake (q : Queue) : Queue :=
  match q.waker with
  | some w => { q with waker := none, woken := w :: q.woken }
  | none => q

/-- Adds chunks at the end.  A closed queue ignores them. -/
def enqueue (q : Queue) (chunks : List Chunk) : Queue :=
  if q.closed then q
  else wake { q with
    chunks := q.chunks ++ chunks
    queuedBytes := q.queuedBytes + Chunk.totalSize chunks }

/-- No chunks will be added any more. -/
def finish (q : Queue) : Queue := wake { q with lastCall := true }

/-- Drops what is queued and ends the queue at once. -/
def close (q : Queue) : Queue := wake { q with closed := true, chunks := [], queuedBytes := 0 }

/-- Splits off further chunks for a read that has `gathered` bytes of the `size` it wants. -/
def more (size gathered : Nat) : List Chunk → List Chunk × List Chunk
  | [] => ([], [])
  | c :: rest =>
    if gathered < size then
      let (taken, left) := more size (gathered + c.size) rest
      (c :: taken, left)
    else ([], c :: rest)

def deliver (s : ListenStats) (chunks : List Chunk) : ListenStats :=
  chunks.foldl (fun s c => s.record c.size c.duration) s

/-- Takes whole chunks until at least `size` bytes are gathered, and always at least one.  When
the queue is idle the reader's waker, if given, replaces the one that waited before. -/
def read (q : Queue) (size : Nat) (waker : Option Waker) : ReadOutcome × Queue :=
  if q.closed then (.finished, q)
  else match q.chunks with
    | [] =>
      if q.lastCall then (.finished, q)
      else (.idle, { q with waker := waker.or q.waker })
    | first :: rest =>
      let (others, left) := more size first.size rest
      let taken := first :: others
      (.data (taken.flatMap Chunk.data),
       { q with
         chunks := left
         queuedBytes := q.queuedBytes - Chunk.totalSize taken
         total := deliver q.total taken
         interval := deliver q.interval taken })

/-- The statistics since the last report, which start anew. -/
def takeInterval (q : Queue) : ListenStats × Queue := (q.interval, { q with interval := {} })

end Queue

end RewindRelay
