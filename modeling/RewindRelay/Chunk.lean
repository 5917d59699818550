import RewindRelay.Bytes
import RewindRelay.Arithmetic
/-!
# Chunks of audio

A chunk is one packet of encoded audio: when it starts, how long it plays, its bytes, and perhaps
what is playing.  The bytes are opaque to the relay.

* `Metadata` — the title and address of what is playing.
* `Chunk` — one packet.
* `Window` — the time a chunk covers, over any arithmetic.
-/

namespace RewindRelay

/-- What is playing.  Metadata without title and address is still metadata. -/
structure Metadata where
  title : Option String := none
  url : Option String := none
  deriving DecidableEq, Repr

/-- The time a chunk covers: from its timestamp, for its duration, the end excluded. -/
structure Window (α : Type) where
  start : Int64
  duration : α

namespace Window

variable {α : Type}

def stop (A : Arithmetic α) (w : Window α) : α := A.add (A.ofTime w.start) w.duration

def covers (A : Arithmetic α) (w : Window α) (ts : Int64) : Bool :=
  A.le (A.ofTime w.start) (A.ofTime ts) && A.lt (A.ofTime ts) (w.stop A)

end Window

/-- One packet of encoded audio. -/
structure Chunk where
  /-- Milliseconds since the epoch at which the chunk starts. -/
  ts : Int64
  /-- Milliseconds the chunk plays for. -/
  duration : Float
  data : Bytes
  metadata : Option Metadata := none

namespace Chunk

def window (c : Chunk) : Window Float := ⟨c.ts, c.duration⟩

def stop (c : Chunk) : Float := c.window.stop .double

def covers (c : Chunk) (ts : Int64) : Bool := c.window.covers .double ts

def size (c : Chunk) : Nat := c.data.length

def totalSize : List Chunk → Nat
  | [] => 0
  | c :: rest => c.size + totalSize rest

end Chunk

end RewindRelay
