import RewindRelay.Stream.Listening
import RewindRelay.Stream.Preload
/-!
# A stream in use

A stream is used from many sides at once: its source pushes, listeners come and go, an operator
changes the window, and preloads run beside all that.  Each of these takes the stream for one
operation at a time, so what happens to a stream is a sequence of single steps in some order.  A
`Broadcast` is the stream together with the preloads that are running on it, an `Event` is one
step, and a run is any list of events.

A preload takes many steps: it starts, takes a piece from the transport, applies one frame, and
ends.  Steps of different preloads, and other operations, can come between any two of them.

* `Stream.Operation`, `Stream.Operation.apply` — the operations of a stream, in one type.
* `PreloadAction`, `Stream.stepPreload` — what a running preload does next.
* `Broadcast.step`, `Broadcast.run` — one event, and a list of events.
* `Broadcast.Reachable` — what a new stream can become.
-/

namespace RewindRelay

namespace Stream

/-! ## Operations -/

/-- What a listener does, or has done to it. -/
inductive ListenerAction
  | pump
  | poll (waker : Waker)
  | read (size : Nat)
  | enqueue (chunks : List Chunk)
  | takeInterval
  | leave

def ListenerAction.apply (s : Stream) (l : Listener) : ListenerAction → Listener
  | .pump => (s.pumpListener l).2
  | .poll waker => (s.pollListener waker l).2
  | .read size => (l.read size).2
  | .enqueue chunks => l.enqueue chunks
  | .takeInterval => l.takeInterval.2
  | .leave => l.close

inductive Operation
  | push (c : Chunk)
  | updateVitals (v : Vitals)
  | setWindow (seconds : Float)
  | adjust
  | reset
  | destroy
  | join (options : ListenOptions) (readSize : Nat)
  /-- One listener does something. -/
  | serve (id : ListenerId) (a : ListenerAction)
  /-- A listener leaves and goes out of use. -/
  | drop (id : ListenerId)
  | reports
  | disconnectSlow (maxBytes : Nat)

/-- The stream after a listener did something; the same stream when there is no such listener. -/
def act (s : Stream) (id : ListenerId) (a : ListenerAction) : Stream :=
  match s.serve id fun l => ((), a.apply s l) with
  | some (_, s') => s'
  | none => s

def Operation.apply (s : Stream) : Operation → Stream
  | .push c => (s.push c).2
  | .updateVitals v => (s.updateVitals v).2
  | .setWindow seconds => s.setWindow seconds
  | .adjust => s.adjust
  | .reset => s.reset
  | .destroy => s.destroy
  | .join options readSize => (s.join options readSize).2
  | .serve id a => s.act id a
  | .drop id => (s.act id .leave).forget id
  | .reports => s.reports.2
  | .disconnectSlow maxBytes => (s.disconnectSlow maxBytes).2

end Stream

/-! ## Preloads -/

/-- What a running preload does next. -/
inductive PreloadAction
  /-- Decodes and applies one frame. -/
  | advance
  /-- Takes what the transport brings. -/
  | transport (event : TransportEvent)
  /-- Is dropped in the middle of the transfer. -/
  | cancel

/-- Is no whole frame left, so that the preload turns to the transport? -/
def Preload.isStarved (C : Codec) (p : Preload) : Bool :=
  match (p.loader.nextFrame C).1 with
  | .ok none => true
  | _ => false

/-- The preload that goes on after a step, if it does. -/
def Stream.Progress.preload? : Stream.Progress → Option Preload
  | .starved p | .applied p => some p
  | .ended _ => none

/-- The preload and the stream after one step of the preload.  A piece from the transport is only
taken in; its frames are applied one by one. -/
def Stream.stepPreload (C : Codec) (s : Stream) (p : Preload) :
    PreloadAction → Option Preload × Stream
  | .advance => ((s.advance C p).1.preload?, (s.advance C p).2)
  | .transport event =>
    if p.isStarved C then
      match event with
      | .bytes data => (some { p with loader := p.loader.feed data }, s)
      | event => ((s.transport C p event).1.preload?, (s.transport C p event).2)
    else (some p, s)
  | .cancel => (none, s.abandon)

/-! ## Events -/

/-- Preloads of one stream are told apart by number. -/
abbrev PreloadId := Nat

/-- A stream and the preloads that are running on it. -/
structure Broadcast where
  stream : Stream
  running : List (PreloadId × Preload) := []
  nextPreload : PreloadId := 0

/-- One step of whoever uses a stream. -/
inductive Event
  | operate (op : Stream.Operation)
  /-- A preload starts. -/
  | start
  /-- A running preload takes a step. -/
  | preload (id : PreloadId) (a : PreloadAction)

namespace Broadcast

def new (name : String) (windowSeconds : Float) (readSize : Nat) : Broadcast :=
  { stream := .new name windowSeconds readSize }

/-- Puts a preload back after a step; one that has ended is not put back. -/
def settle (b : Broadcast) (id : PreloadId) : Option Preload → List (PreloadId × Preload)
  | some p => b.running.map fun r => if r.1 = id then (id, p) else r
  | none => b.running.filter fun r => r.1 ≠ id

def step (C : Codec) (b : Broadcast) : Event → Broadcast
  | .operate op => { b with stream := op.apply b.stream }
  | .start =>
    { stream := b.stream.beginPreload
      running := b.running ++ [(b.nextPreload, {})]
      nextPreload := b.nextPreload + 1 }
  | .preload id a =>
    match b.running.lookup id with
    | some p =>
      let (p', stream) := b.stream.stepPreload C p a
      { b with stream, running := b.settle id p' }
    | none => b

/-- What a list of events does, one after the other. -/
def run (C : Codec) (b : Broadcast) (events : List Event) : Broadcast :=
  events.foldl (step C) b

/-- What a new stream can become, by any events in any order. -/
inductive Reachable (C : Codec) : Broadcast → Prop
  | new (name : String) (windowSeconds : Float) (readSize : Nat) :
    Reachable C (.new name windowSeconds readSize)
  | step {b : Broadcast} (event : Event) : Reachable C b → Reachable C (b.step C event)

end Broadcast

end RewindRelay
