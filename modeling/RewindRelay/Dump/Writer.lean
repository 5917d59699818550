import RewindRelay.Dump.Encoder
/-!
# Writing a dump piece by piece

A dump is produced on demand.  Each read hands out whole frames, the header first and then the
chunks from the newest to the oldest, until the asked number of bytes is reached; the last frame
may overshoot it.  A chunk that cannot be framed ends the dump: the read reports why, what it had
gathered is lost, and every later read finds the dump at its end.

* `DumpWriter` — a dump that is being read.
* `DumpWriter.ofChunks` — the dump of a snapshot.
* `DumpWriter.read` — the next piece.
-/

namespace RewindRelay

/-- How many bytes a piece has unless the reader says otherwise. -/
def defaultReadSize : Nat := 65536

/-- A dump that is being read. -/
structure DumpWriter where
  header : Header
  headerSent : Bool := false
  /-- The chunks still to be framed, newest first. -/
  pending : List Chunk
  /-- How many bytes a reader who does not say is given at a time. -/
  readSize : Nat := defaultReadSize
  failed : Bool := false

namespace DumpWriter

/-- The dump of a snapshot that lists the chunks oldest first. -/
def ofChunks (vitals : Vitals) (chunks : List Chunk) (readSize : Nat) : DumpWriter :=
  { header := .describe vitals chunks, pending := chunks.reverse, readSize := max readSize 1 }

def remaining (w : DumpWriter) : Nat := w.pending.length

/-- Frames chunks until the read, of which `gathered` bytes are there, has `size` bytes.  The answer
names the chunks that are left, the one that failed not among them. -/
def gather (C : Codec) (size gathered : Nat) : List Chunk → Except FrameError Bytes × List Chunk
  | [] => (.ok [], [])
  | c :: rest =>
    if gathered < size then
      match chunkFrame C c with
      | .ok frame =>
        let (bytes, left) := gather C size (gathered + frame.length) rest
        (bytes.map (frame ++ ·), left)
      | .error e => (.error e, rest)
    else (.ok [], c :: rest)

/-- What is written before the chunks of a read: the header frame, the first time. -/
def opening (C : Codec) (w : DumpWriter) : Except FrameError Bytes :=
  if w.headerSent then .ok [] else headerFrame C w.header

/-- The next piece of about `size` bytes; nothing at the end. -/
def read (C : Codec) (w : DumpWriter) (size : Nat) :
    Except FrameError (Option Bytes) × DumpWriter :=
  if w.failed then (.ok none, w)
  else match opening C w with
    | .error e => (.error e, { w with failed := true })
    | .ok first =>
      match gather C (max size 1) first.length w.pending with
      | (.error e, pending) => (.error e, { w with headerSent := true, pending, failed := true })
      | (.ok more, pending) =>
        let bytes := first ++ more
        (.ok (if bytes.isEmpty then none else some bytes), { w with headerSent := true, pending })

/-- The next piece of the writer's own size. -/
def poll (C : Codec) (w : DumpWriter) : Except FrameError (Option Bytes) × DumpWriter :=
  w.read C w.readSize

/-- The most pieces that can still come, where that is known: none after a failure. -/
def piecesLeft (w : DumpWriter) : Option Nat := if w.failed then some 0 else none

end DumpWriter

end RewindRelay
