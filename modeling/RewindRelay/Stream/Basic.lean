import RewindRelay.Error
import RewindRelay.Listener.Basic
import RewindRelay.Store.Lookup
/-!
# Streams

A stream is a store of recent audio, the vitals of its encoding, and its listeners.  How many
chunks it keeps follows from the seconds it is meant to hold and the duration of a chunk.

* `Stream` — the state of one stream.
* `Stream.lengthBound` — how many chunks a stream keeps.
* `Stream.onStore` — an operation on its store.
* `Stream.setWindow`, `Stream.updateVitals`, `Stream.reset`, `Stream.destroy` — what changes it
  as a whole.
* `Stream.chunksBehind`, `Stream.secondsBehind` — stored audio behind the live edge.
-/

namespace RewindRelay

/-- One stream. -/
structure Stream where
  name : String
  /-- Bytes handed to a listener or a dump at a time. -/
  readSize : Nat
  store : Store
  vitals : Option Vitals := none
  /-- Seconds of audio that the stream is meant to hold. -/
  windowSeconds : Float
  /-- All listeners of the stream, seated or not. -/
  listeners : List Listener := []
  nextListener : ListenerId := 0
  nowPlaying : Option Metadata := none
  destroyed : Bool := false
  /-- A preload is running. -/
  loading : Bool := false

namespace Stream

/-! ## Size -/

/-- The chunk duration that is assumed before a source reports vitals: shorter than any encoder's
chunks, so that the window is never cut short. -/
def assumedChunkSeconds : Float := 0.02

/-- The number of chunks that a window holds, and never less than one. -/
def lengthBound (windowSeconds : Float) (vitals : Option Vitals) : Nat :=
  let chunkSeconds := match vitals with
    | some v => v.chunkDuration
    | none => assumedChunkSeconds
  max 1 (Decimal.nearestCount (windowSeconds / chunkSeconds))

/-- Brings the store's capacity in line with the window and the vitals. -/
def adjust (s : Stream) : Stream :=
  { s with store := s.store.setCapacity (lengthBound s.windowSeconds s.vitals) }

/-- A stream without audio, vitals or listeners. -/
def new (name : String) (windowSeconds : Float) (readSize : Nat) : Stream :=
  adjust { name, readSize, windowSeconds, store := .empty Store.unbounded }

/-- Changes the window; surplus audio leaves at once. -/
def setWindow (s : Stream) (seconds : Float) : Stream :=
  adjust { s with windowSeconds := seconds }

/-! ## The store -/

/-- Runs an operation on the store.  The stream has none meanwhile, so that the store need not be
copied. -/
def onStore {α : Type} (s : Stream) (f : Store → α × Store) : α × Stream :=
  let store := s.store
  let s := { s with store := .empty 0 }
  let (a, store) := f store
  (a, { s with store })

/-- An operation on the store changes nothing else. -/
theorem onStore_eq {α : Type} (s : Stream) (f : Store → α × Store) :
    s.onStore f = ((f s.store).1, { s with store := (f s.store).2 }) := rfl

/-! ## Starting over -/

/-- Every listener forgets what it was given last. -/
def forgetCursors (s : Stream) : Stream :=
  { s with listeners := s.listeners.map Listener.forgetCursor }

/-- Discards all audio.  The vitals stay for the next push. -/
def reset (s : Stream) : Stream := forgetCursors { s with store := s.store.clear }

/-- Rejects all further audio and ends every seated listener. -/
def destroy (s : Stream) : Stream :=
  if s.destroyed then s
  else { s with
    destroyed := true
    store := s.store.clear
    listeners := s.listeners.map fun l => if l.isSeated then l.unseat else l }

/-! ## Vitals -/

/-- What newly reported vitals did to a stream. -/
inductive VitalsChange
  /-- The first vitals. -/
  | initial
  /-- The same stream key: the audio stays. -/
  | compatible
  /-- Another stream key: so many chunks were discarded. -/
  | reset (discarded : Nat)
  deriving DecidableEq, Repr

/-- What vitals with this key would do. -/
def vitalsChange (s : Stream) (streamKey : String) : VitalsChange :=
  match s.vitals with
  | none => .initial
  | some v => if v.streamKey = streamKey then .compatible else .reset s.store.length

/-- Takes over newly reported vitals.  Audio of another encoding is discarded first. -/
def updateVitals (s : Stream) (v : Vitals) : Except StreamError VitalsChange × Stream :=
  if v.isUsable then
    let change := s.vitalsChange v.streamKey
    let s := match change with
      | .reset _ => s.reset
      | _ => s
    (.ok change, adjust { s with vitals := some v })
  else (.error (.invalidVitals v.streamKey v.chunkDuration), s)

/-! ## Offsets -/

/-- The chunks in a span of seconds; none without vitals. -/
def chunksIn (s : Stream) (seconds : Float) : Nat :=
  match s.vitals with
  | some v => v.chunksIn seconds
  | none => 0

/-- The seconds that a number of chunks plays for, if the vitals are known. -/
def secondsOf? (s : Stream) (chunks : Nat) : Option Float :=
  s.vitals.map fun v => v.secondsOf chunks

/-- An offset no further back than the oldest chunk. -/
def clampOffset (s : Stream) (offset : Nat) : Nat := min offset (s.store.length - 1)

/-- A requested offset inside the stored span.  Negative requests mean live. -/
def validOffset (s : Stream) (offset : Int) : Nat :=
  if offset < 0 then 0 else s.clampOffset offset.toNat

/-- Up to `length` chunks from `offset` chunks behind live, oldest first.  Offset zero and length
zero mean nothing. -/
def chunksBehind (s : Stream) (offset length : Nat) : List Chunk :=
  if offset = 0 ∨ length = 0 then [] else s.store.behind (s.clampOffset offset) length

/-- The same with both arguments in seconds. -/
def secondsBehind (s : Stream) (offset length : Float) : List Chunk :=
  s.chunksBehind (s.chunksIn offset) (s.chunksIn length)

/-- A dump of what the stream holds now. -/
def dump (s : Stream) : Except StreamError DumpWriter :=
  match s.vitals with
  | some v => .ok (.ofChunks v s.store.chunks s.readSize)
  | none => .error (.noVitals s.name)

end Stream

end RewindRelay
