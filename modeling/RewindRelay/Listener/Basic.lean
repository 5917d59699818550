import RewindRelay.Listener.Queue
import RewindRelay.Dump.Writer
/-!
# Listeners

A listener joins a stream at the live edge, some seconds behind it, or at a moment in the past.
It is *seeding* until it has been given its first audio, *streaming* while it follows the stream
or drains what it was given, and *closed* in the end.

* `ListenOptions` — where and how a listener joins.
* `Listener` — a listener with its queue, and its seat in the stream's listener table.
* `Listener.read`, `Listener.close` — reading, and leaving for good.
-/

namespace RewindRelay

/-- Where and how a listener joins a stream. -/
structure ListenOptions where
  /-- Seconds behind live that the listener is held at. -/
  offsetSeconds : Float := 0
  /-- Seconds of audio that the listener is given at once. -/
  burstSeconds : Float := 15
  /-- Give the listener its burst and nothing more. -/
  pumpAndFinish : Bool := false
  /-- Start at the chunk on air at this moment, instead of by the offset. -/
  timestamp : Option Int64 := none

namespace ListenOptions

/-- A listener at the live edge. -/
def live : ListenOptions := {}

def rewound (seconds : Float) : ListenOptions := { offsetSeconds := seconds }

/-- The last seconds behind live, delivered once. -/
def download (seconds : Float) : ListenOptions :=
  { offsetSeconds := seconds, burstSeconds := seconds, pumpAndFinish := true }

end ListenOptions

/-- How far a listener has come. -/
inductive ListenerPhase
  | seeding
  | streaming
  | closed
  deriving DecidableEq, Repr

/-- A place in the listener table of a stream. -/
structure Seat where
  /-- Chunks behind live that the listener is held at. -/
  offset : Nat
  /-- Timestamp of the newest chunk that was queued for the listener. -/
  cursor : Option Int64
  deriving DecidableEq, Repr

/-- Listeners of one stream are told apart by number. -/
abbrev ListenerId := Nat

/-- A listener of a stream.  Without a seat it gets no live audio. -/
structure Listener where
  id : ListenerId
  options : ListenOptions
  readSize : Nat := defaultReadSize
  phase : ListenerPhase := .seeding
  queue : Queue := {}
  seat : Option Seat := none

namespace Listener

/-- Is the listener in the stream's table? -/
def isSeated (l : Listener) : Bool := l.seat.isSome

def queuedBytes (l : Listener) : Nat := l.queue.queuedBytes

def enqueue (l : Listener) (chunks : List Chunk) : Listener :=
  { l with queue := l.queue.enqueue chunks }

/-- Takes about `size` bytes of whole chunks. -/
def read (l : Listener) (size : Nat) : ReadOutcome × Listener :=
  match l.phase with
  | .seeding => (.idle, l)
  | .streaming =>
    let (outcome, queue) := l.queue.read size none
    (outcome, { l with queue })
  | .closed => (.finished, l)

/-- The statistics since the last report. -/
def takeInterval (l : Listener) : ListenStats × Listener :=
  let (interval, queue) := l.queue.takeInterval
  (interval, { l with queue })

def unseat (l : Listener) : Listener := { l with seat := none, queue := l.queue.close }

def close (l : Listener) : Listener :=
  if l.phase = .closed then l else { l.unseat with phase := .closed }

/-- The listener forgets what it was given last, because the stream starts over. -/
def forgetCursor (l : Listener) : Listener :=
  { l with seat := l.seat.map fun seat => { seat with cursor := none } }

end Listener

end RewindRelay
