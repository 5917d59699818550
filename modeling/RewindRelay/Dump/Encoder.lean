import RewindRelay.Dump.Frame
/-!
# Writing frames

A frame is written whole or not at all: every limit is checked before the first byte, so the
length fields never lose a digit.  When both the head and the payload of a chunk are too large,
the head is reported.

* `headerFrame`, `chunkFrame` — one frame, or why there is none.
* `Frame.appendTo` — a frame after what has been written already.
-/

namespace RewindRelay

def headerFrame (C : Codec) (h : Header) : Except FrameError Bytes :=
  let text := C.writeHeader h
  let length := text.length
  if Frame.maxHeader < length then .error (.headerTooLarge length)
  else .ok (Bytes.littleEndian 4 length ++ text)

def chunkFrame (C : Codec) (c : Chunk) : Except FrameError Bytes :=
  let head := C.writeHead c.head
  let length := head.length
  if Frame.maxHead < length then .error (.headTooLarge length)
  else if Frame.maxPayload < c.size then .error (.payloadTooLarge c.size)
  else .ok (Bytes.littleEndian 1 length ++ head ++ Bytes.littleEndian 2 c.size ++ c.data)

def Frame.encode (C : Codec) : Frame → Except FrameError Bytes
  | .header h => headerFrame C h
  | .chunk c => chunkFrame C c

/-- Writes a frame after `out`.  A frame that cannot be written leaves `out` as it is. -/
def Frame.appendTo (C : Codec) (out : Bytes) (f : Frame) : Option FrameError × Bytes :=
  match f.encode C with
  | .ok bytes => (none, out ++ bytes)
  | .error e => (some e, out)

end RewindRelay
