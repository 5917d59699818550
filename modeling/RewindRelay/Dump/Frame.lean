import RewindRelay.Chunk
import RewindRelay.Vitals
import RewindRelay.Decimal.Numeral
/-!
# Frames of a dump

A dump carries a stream's audio from one relay to another.  It is a header frame followed by one
frame for each chunk, newest chunk first, and has no end mark.

    header: 4 bytes length | header text
    chunk:  1 byte length | chunk head text | 2 bytes length | payload

Lengths are little-endian, and the texts are JSON documents.  How the texts are written and read is
left to a `Codec`, so that the framing can be reasoned about on its own.

* `Header`, `ChunkHead`, `Frame` — what a dump says.
* `FrameError` — why a frame cannot be written or read.
* `Codec` — writers and readers of the two texts.
-/

namespace RewindRelay

/-- The first frame of a dump. -/
structure Header where
  /-- Timestamp of the oldest chunk. -/
  startTs : Option Int64
  /-- Where the newest chunk ends. -/
  endTs : Option Float
  vitals : Vitals

def Header.describe (vitals : Vitals) (chunks : List Chunk) : Header :=
  { startTs := chunks.head?.map Chunk.ts
    endTs := chunks.getLast?.map Chunk.stop
    vitals }

/-- All of a chunk but its payload. -/
structure ChunkHead where
  ts : Int64
  duration : Float
  metadata : Option Metadata := none

def Chunk.head (c : Chunk) : ChunkHead := ⟨c.ts, c.duration, c.metadata⟩

def ChunkHead.chunk (h : ChunkHead) (data : Bytes) : Chunk :=
  { ts := h.ts, duration := h.duration, data, metadata := h.metadata }

/-- A decoded frame. -/
inductive Frame
  | header (h : Header)
  | chunk (c : Chunk)

namespace Frame

def maxHead : Nat := 255

def maxPayload : Nat := 65535

/-- The longest header text.  A longer one is taken for damage. -/
def maxHeader : Nat := 1048576

end Frame

/-! ## Errors -/

/-- Why a frame cannot be written or read. -/
inductive FrameError
  | headTooLarge (length : Nat)
  | payloadTooLarge (length : Nat)
  | headerTooLarge (length : Nat)
  | invalidHeader
  | invalidHead
  | missingHeader
  | truncated (length : Nat)
  deriving DecidableEq, Repr

def FrameError.message : FrameError → String
  | .headTooLarge n =>
    s!"chunk metadata is {n} bytes, frame limit is {Frame.maxHead}"
  | .payloadTooLarge n =>
    s!"chunk payload is {n} bytes, frame limit is {Frame.maxPayload}"
  | .headerTooLarge n =>
    s!"header frame declares {n} bytes, limit is {Frame.maxHeader}"
  | .invalidHeader => "invalid header JSON"
  | .invalidHead => "invalid chunk metadata JSON"
  | .missingHeader => "stream ended before a header frame was received"
  | .truncated n => s!"stream ended inside a frame ({n} bytes left undecoded)"

/-! ## Texts inside frames -/

/-- How the texts inside frames are written and read. -/
structure Codec where
  writeHeader : Header → Bytes
  readHeader : Bytes → Option Header
  writeHead : ChunkHead → Bytes
  readHead : Bytes → Option ChunkHead

end RewindRelay
