import RewindRelay.Stream.Live
/-!
# A synthetic source

A relay can be tried without an encoder: the demo source produces a sawtooth wave as 8-bit
samples, in chunks of equal length, with a new title and pitch for each track.

* `DemoSource` — the shape of the wave.
* `DemoSource.chunk` — one chunk of it.
* `DemoSource.announce`, `DemoSource.feed` — feeding a stream.
-/

namespace RewindRelay

/-- The shape of the generated audio. -/
structure DemoSource where
  chunkMillis : Nat := 500
  /-- Samples in a second. -/
  sampleRate : Nat := 8000
  /-- Chunks before the title changes. -/
  chunksPerTrack : Nat := 120

namespace DemoSource

/-- The seconds in a chunk: whole seconds and the rest, each as a double. -/
def chunkSeconds (d : DemoSource) : Float :=
  Decimal.ofCount (d.chunkMillis / 1000) +
    Decimal.ofCount (d.chunkMillis % 1000 * 1000000) / 1000000000

def vitals (d : DemoSource) : Vitals :=
  let rate := d.sampleRate
  { streamKey := s!"demo-pcm-u8-{rate}"
    chunkDuration := d.chunkSeconds
    framesPerSecond := Decimal.ofCount rate
    contentType := some "audio/L8" }

/-- Chunks in a track; at least one. -/
def trackLength (d : DemoSource) : Nat := max 1 d.chunksPerTrack

/-- Samples in one period of the wave.  The pitch steps through eight values. -/
def period (track : Nat) : Nat := 20 + track % 8 * 4

def samples (d : DemoSource) (track : Nat) : Bytes :=
  let count := (Decimal.ofCount d.sampleRate * d.chunkSeconds).toUInt64.toNat
  let period := period track
  (List.range count).map fun i => UInt8.ofNat (i % period * 255 / period)

/-- The chunk with this number of a stream that started at `startTs`. -/
def chunk (d : DemoSource) (startTs : Int64) (index : Nat) : Chunk :=
  let duration := d.chunkSeconds * 1000
  let track := index / d.trackLength
  let number := track + 1
  { ts := startTs + Decimal.nearestInt64 (Decimal.ofCount index * duration)
    duration
    data := d.samples track
    metadata :=
      if index % d.trackLength = 0 then some { title := some s!"Demo Track {number}" } else none }

/-- Announces the source to a stream; false when the stream refuses its vitals. -/
def announce (d : DemoSource) (s : Stream) : Bool × Stream :=
  match s.updateVitals d.vitals with
  | (.ok _, s') => (true, s')
  | (.error _, s') => (false, s')

/-- Pushes the chunk with this number; false when the stream is destroyed and the source stops.
Any other refusal is passed over. -/
def tick (d : DemoSource) (startTs : Int64) (s : Stream) (index : Nat) : Bool × Stream :=
  match s.push (d.chunk startTs index) with
  | (.error (.destroyed _), s') => (false, s')
  | (_, s') => (true, s')

/-- Feeds a stream for a number of ticks, or until the source stops. -/
def feed (d : DemoSource) (startTs : Int64) (first : Nat) : (ticks : Nat) → Stream → Stream
  | 0, s => s
  | ticks + 1, s =>
    match d.tick startTs s first with
    | (true, s') => d.feed startTs (first + 1) ticks s'
    | (false, s') => s'

/-- The ticks of the first `millis` milliseconds.  The first one is at the start, and one at the
very end does not count. -/
def ticksWithin (d : DemoSource) (millis : Nat) : Nat :=
  (millis + d.chunkMillis - 1) / d.chunkMillis

/-- A stream after the source has fed it for `millis` milliseconds. -/
def feedFor (d : DemoSource) (startTs : Int64) (millis : Nat) (s : Stream) : Stream :=
  if millis = 0 then s
  else match d.announce s with
    | (true, s') => d.feed startTs 0 (d.ticksWithin millis) s'
    | (false, s') => s'

end DemoSource

end RewindRelay
