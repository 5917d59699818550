import RewindRelay.Stream.Live
/-!
# Joining and leaving a stream

A listener joins in two steps: it is created, and then seated with its first audio.  Seeding and
seating are one step of the stream, so the history is always queued before any live chunk.  While
a preload runs no listener is seated.

* `Stream.join` — a new listener, not yet seeded.
* `Stream.pump` — seeds and seats a listener.
* `Stream.poll` — one poll of a listener as a byte stream.
* `Stream.isReady`, `Stream.listen` — join and pump once the stream is ready.
* `Stream.reports`, `Stream.disconnectSlow` — housekeeping.
-/

namespace RewindRelay

namespace Stream

/-! ## Seeding -/

/-- The offset at which a listener will be held. -/
def seatOffset (s : Stream) (o : ListenOptions) : Except Fault Nat :=
  match o.timestamp with
  | some ts => (s.store.offsetOfTimestamp? ts).map fun offset => s.clampOffset (offset.getD 0)
  | none => .ok (s.clampOffset (s.chunksIn o.offsetSeconds))

/-- The first audio of a listener that will be held at an offset.  By timestamp it starts at the
covering chunk, the newest one included; a live listener gets the chunks just behind live. -/
def seed (s : Stream) (o : ListenOptions) (offset : Nat) : List Chunk :=
  let burst := s.chunksIn o.burstSeconds
  match o.timestamp with
  | some _ => s.store.behind offset burst
  | none => s.chunksBehind (if offset = 0 then burst else offset) burst

/-- A listener with its first audio, held at an offset unless it only wants its burst. -/
def settle (l : Listener) (offset : Nat) (chunks : List Chunk) : Listener :=
  let l := { l.enqueue chunks with phase := .streaming }
  if l.options.pumpAndFinish then { l with queue := l.queue.finish }
  else { l with seat := some { offset, cursor := chunks.getLast?.map Chunk.ts } }

/-- Seeds a listener and, unless it only wants its burst, seats it; the answer begins with the
number of chunks that it got.  If its moment cannot be looked up, nothing is done. -/
def attach (s : Stream) (l : Listener) : Except Refusal (Nat × Listener) :=
  if s.destroyed then .error (.stream (.destroyed s.name))
  else if s.loading then .error (.stream (.loading s.name))
  else match s.seatOffset l.options with
  | .error f => .error (.fault f)
  | .ok offset =>
    let chunks := s.seed l.options offset
    .ok (chunks.length, settle l offset chunks)

/-- Seeds a listener that is not seeded yet, and says how many chunks it got. -/
def pumpListener (s : Stream) (l : Listener) : Except Refusal Nat × Listener :=
  if l.phase = .seeding then
    match s.attach l with
    | .ok (seeded, l') => (.ok seeded, l')
    | .error e => (.error e, l)
  else (.ok 0, l)

/-- What a poll of a listener finds. -/
inductive PollOutcome
  | data (bytes : Bytes)
  | pending
  | finished
  | failed (e : Refusal)

def PollOutcome.ofRead : ReadOutcome → PollOutcome
  | .data bytes => .data bytes
  | .idle => .pending
  | .finished => .finished

/-- Reads the listener's queue for a poll. -/
def readFor (l : Listener) (waker : Waker) : PollOutcome × Listener :=
  let (outcome, queue) := l.queue.read l.readSize (some waker)
  (.ofRead outcome, { l with queue })

/-- Polls a listener.  The first poll seeds it; if the stream does not take it, it is closed, and if
its moment cannot be looked up, nothing is done. -/
def pollListener (s : Stream) (waker : Waker) (l : Listener) : PollOutcome × Listener :=
  match l.phase with
  | .closed => (.finished, l)
  | .streaming => readFor l waker
  | .seeding =>
    match s.pumpListener l with
    | (.ok _, l') => readFor l' waker
    | (.error (.stream e), l') => (.failed (.stream e), { l' with phase := .closed })
    | (.error (.fault f), l') => (.failed (.fault f), l')

/-! ## Listeners by number -/

def listener? (s : Stream) (id : ListenerId) : Option Listener :=
  s.listeners.find? fun l => l.id == id

def put (s : Stream) (l : Listener) : Stream :=
  { s with listeners := s.listeners.map fun l' => if l'.id = l.id then l else l' }

/-- Runs an operation of the listener with this number; nothing when there is no such
listener. -/
def serve {α : Type} (s : Stream) (id : ListenerId) (f : Listener → α × Listener) :
    Option (α × Stream) :=
  (s.listener? id).map fun l =>
    let (a, l') := f l
    (a, s.put l')

/-- Adds a listener that is not seeded yet. -/
def join (s : Stream) (options : ListenOptions) (readSize : Nat) : ListenerId × Stream :=
  (s.nextListener, { s with
    listeners := s.listeners ++ [{ id := s.nextListener, options, readSize := max readSize 1 }]
    nextListener := s.nextListener + 1 })

/-- Seeds and seats a listener. -/
def pump (s : Stream) (id : ListenerId) : Option (Except Refusal Nat × Stream) :=
  s.serve id s.pumpListener

def poll (s : Stream) (id : ListenerId) (waker : Waker) : Option (PollOutcome × Stream) :=
  s.serve id (s.pollListener waker)

/-- A listener leaves; the totals of its session are the answer. -/
def leave (s : Stream) (id : ListenerId) : Option (ListenStats × Stream) :=
  s.serve id fun l => (l.queue.total, l.close)

/-- A listener goes out of use altogether. -/
def forget (s : Stream) (id : ListenerId) : Stream :=
  { s with listeners := s.listeners.filter fun l => l.id != id }

/-- Is the stream ready for new listeners?  Not while it is marked as loading. -/
def isReady (s : Stream) : Bool := !s.loading

/-- What becomes of a listener that waits for a stream. -/
inductive ListenOutcome
  /-- A preload is still running. -/
  | waiting
  | refused (e : Refusal)
  | joined (id : ListenerId) (s : Stream)

/-- Joins and seeds a listener, unless a preload makes it wait. -/
def listen (s : Stream) (options : ListenOptions) : ListenOutcome :=
  if s.isReady then
    let (id, joined) := s.join options s.readSize
    match joined.pump id with
    | some (.ok _, seated) => .joined id seated
    | some (.error e, _) => .refused e
    | none => .waiting
  else .waiting

/-! ## Housekeeping -/

def seated (s : Stream) : List Listener := s.listeners.filter Listener.isSeated

def listenerCount (s : Stream) : Nat := s.seated.length

/-- What a listener has been given since the last report, and in all. -/
structure Report where
  id : ListenerId
  offset : Nat
  queuedBytes : Nat
  interval : ListenStats
  total : ListenStats

def report? (l : Listener) : Option Report :=
  l.seat.map fun seat =>
    { id := l.id, offset := seat.offset, queuedBytes := l.queuedBytes
      interval := l.queue.interval, total := l.queue.total }

/-- Reports on all seated listeners; their intervals start anew. -/
def reports (s : Stream) : List Report × Stream :=
  (s.listeners.filterMap report?, { s with
    listeners := s.listeners.map fun l => if l.isSeated then l.takeInterval.2 else l })

/-- Is the listener seated and further behind than allowed? -/
def isSlow (maxBytes : Nat) (l : Listener) : Bool := l.isSeated && maxBytes < l.queuedBytes

/-- Ends every seated listener that has more than `maxBytes` bytes waiting. -/
def disconnectSlow (s : Stream) (maxBytes : Nat) : List ListenerId × Stream :=
  ((s.listeners.filter (isSlow maxBytes)).map Listener.id, { s with
    listeners := s.listeners.map fun l => if isSlow maxBytes l then l.unseat else l })

/-- One round of housekeeping: reports are taken, then slow listeners are ended. -/
def housekeep (s : Stream) (maxBytes : Nat) : Stream := (s.reports.2.disconnectSlow maxBytes).2

end Stream

end RewindRelay
