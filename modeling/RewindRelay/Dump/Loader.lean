import RewindRelay.Dump.Frame
/-!
# Reading a dump piece by piece

Bytes arrive in whatever pieces the transport delivers.  A frame is decoded only once it is there
as a whole, so a dump that is cut short never yields part of a chunk.  The first frame that cannot
be decoded spends the loader: it forgets its bytes and yields nothing more.

* `Loader` — the bytes not yet decoded, and which frame comes next.
* `Loader.feed`, `Loader.nextFrame`, `Loader.finish` — the operations.
* `decodeAll` — a whole dump at once.
-/

namespace RewindRelay

/-- What the loader waits for. -/
inductive LoaderPhase
  | header
  | chunk
  /-- A frame could not be decoded. -/
  | spent
  deriving DecidableEq, Repr

/-- A dump that is being decoded. -/
structure Loader where
  buffer : Bytes := []
  phase : LoaderPhase := .header
  chunksDecoded : Nat := 0

namespace Loader

def buffered (l : Loader) : Nat := l.buffer.length

/-- Takes bytes from the transport.  A spent loader ignores them. -/
def feed (l : Loader) (bytes : Bytes) : Loader :=
  if l.phase = .spent then l else { l with buffer := l.buffer ++ bytes }

/-! ## One frame -/

/-- What the front of the input holds: nothing whole yet, damage, or a frame and the rest. -/
inductive Front (α : Type)
  | incomplete
  | damaged (e : FrameError)
  | whole (a : α) (rest : Bytes)

/-- A header frame at the front of the input.  The declared length is checked before the text is
waited for. -/
def headerAt (C : Codec) (input : Bytes) : Front Header :=
  match Bytes.cut 4 input with
  | none => .incomplete
  | some (field, input) =>
    let length := Bytes.ofLittleEndian field
    if Frame.maxHeader < length then .damaged (.headerTooLarge length)
    else match Bytes.cut length input with
      | none => .incomplete
      | some (text, rest) =>
        match C.readHeader text with
        | some h => .whole h rest
        | none => .damaged .invalidHeader

/-- A chunk frame at the front of the input.  The head is read only when the payload is there. -/
def chunkAt (C : Codec) (input : Bytes) : Front Chunk :=
  match input with
  | [] => .incomplete
  | length :: input =>
    match Bytes.cut length.toNat input with
    | none => .incomplete
    | some (text, input) =>
      match Bytes.cut 2 input with
      | none => .incomplete
      | some (field, input) =>
        match Bytes.cut (Bytes.ofLittleEndian field) input with
        | none => .incomplete
        | some (data, rest) =>
          match C.readHead text with
          | some head => .whole (head.chunk data) rest
          | none => .damaged .invalidHead

/-- The loader after damage. -/
def spend (l : Loader) : Loader := { l with buffer := [], phase := .spent }

/-- Decodes the next frame, if it is there as a whole. -/
def nextFrame (C : Codec) (l : Loader) : Except FrameError (Option Frame) × Loader :=
  match l.phase with
  | .spent => (.ok none, l)
  | .header =>
    match headerAt C l.buffer with
    | .incomplete => (.ok none, l)
    | .damaged e => (.error e, l.spend)
    | .whole h rest => (.ok (some (.header h)), { l with buffer := rest, phase := .chunk })
  | .chunk =>
    match chunkAt C l.buffer with
    | .incomplete => (.ok none, l)
    | .damaged e => (.error e, l.spend)
    | .whole c rest =>
      (.ok (some (.chunk c)), { l with buffer := rest, chunksDecoded := l.chunksDecoded + 1 })

/-- The input has ended: was it a whole dump? -/
def finish (l : Loader) : Except FrameError Unit :=
  if l.buffer.isEmpty then
    if l.phase = .header then .error .missingHeader else .ok ()
  else .error (.truncated l.buffered)

/-! ## All frames that are there -/

/-- Decodes at most `limit` frames, and says how it ended. -/
def drainUpTo (C : Codec) : (limit : Nat) → Loader → List Frame × Except FrameError Unit × Loader
  | 0, l => ([], .ok (), l)
  | limit + 1, l =>
    match nextFrame C l with
    | (.ok none, l') => ([], .ok (), l')
    | (.error e, l') => ([], .error e, l')
    | (.ok (some f), l') =>
      let (frames, outcome, l'') := drainUpTo C limit l'
      (f :: frames, outcome, l'')

/-- Decodes every frame that is there as a whole.  A frame takes three bytes or more, so there
are never more frames than bytes. -/
def drain (C : Codec) (l : Loader) : List Frame × Except FrameError Unit × Loader :=
  drainUpTo C (l.buffered + 1) l

end Loader

def decodeAll (C : Codec) (bytes : Bytes) : Except FrameError (List Frame) :=
  match (Loader.feed {} bytes).drain C with
  | (_, .error e, _) => .error e
  | (frames, .ok (), l) => l.finish.map fun _ => frames

end RewindRelay
