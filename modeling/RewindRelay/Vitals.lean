import RewindRelay.Arithmetic
/-!
# Encoding vitals

A stream's source reports the vitals of its encoding.  The stream key tells encodings apart, and
the chunk duration turns seconds into chunk counts and back.

* `Vitals` — what a source reports.
* `Vitals.isUsable` — the chunk duration is a positive number.
* `Vitals.chunksIn` — the number of chunks in a span of seconds, to the nearest chunk.
* `Vitals.secondsOf` — the seconds that a number of chunks plays for.
-/

namespace RewindRelay

/-- The encoding of a stream's audio. -/
structure Vitals where
  /-- Fingerprint of the encoding: chunks under different keys must not be mixed. -/
  streamKey : String
  /-- Seconds of audio in a chunk. -/
  chunkDuration : Float
  /-- Frame rate, for information only. -/
  framesPerSecond : Float := 0
  /-- The content type that listeners are told. -/
  contentType : Option String := none

namespace Vitals

/-- Vitals drive conversions only when the chunk duration is a positive finite number. -/
def isUsable (v : Vitals) : Bool := v.chunkDuration.isFinite && 0 < v.chunkDuration

/-- The chunks in a span of seconds, in any arithmetic. -/
def chunksAt {α : Type} (A : Arithmetic α) (chunkDuration seconds : α) : Nat :=
  A.nearestCount (A.div seconds chunkDuration)

/-- The seconds in a number of chunks, in any arithmetic. -/
def secondsAt {α : Type} (A : Arithmetic α) (chunkDuration : α) (chunks : Nat) : α :=
  A.mul (A.ofCount chunks) chunkDuration

/-- The chunks in a span of seconds.  Spans that are not positive and finite hold none. -/
def chunksIn (v : Vitals) (seconds : Float) : Nat :=
  if v.isUsable && seconds.isFinite && 0 < seconds then
    chunksAt .double v.chunkDuration seconds
  else 0

def secondsOf (v : Vitals) (chunks : Nat) : Float := secondsAt .double v.chunkDuration chunks

end Vitals

end RewindRelay
