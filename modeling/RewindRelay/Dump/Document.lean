import RewindRelay.Dump.Frame
import RewindRelay.Json.Printer
import RewindRelay.Json.Reader
import RewindRelay.Json.Record
/-!
# Frame texts as JSON documents

Headers, chunk heads, vitals and metadata as documents, and back.  A field that may be missing is
left out, but the bounds of a header are always written.  Numbers that are not finite become
`null`, and reading does not take `null` for a number.

* `Vitals.toJson` / `Vitals.ofJson?`, and likewise for the others.
* `Codec.json` — the codec of real dumps.
-/

namespace RewindRelay

open Json (Value record?)
open Json.Value (field optionalField ofString ofFloat ofInt ofOption optional?)

/-! ## Writing -/

def Metadata.toJson (m : Metadata) : Value :=
  .object (optionalField "title" ofString m.title ++ optionalField "url" ofString m.url)

def Vitals.toJson (v : Vitals) : Value :=
  .object ([field "streamKey" (ofString v.streamKey),
    field "chunkDuration" (ofFloat v.chunkDuration),
    field "framesPerSecond" (ofFloat v.framesPerSecond)] ++
    optionalField "contentType" ofString v.contentType)

def Header.toJson (h : Header) : Value :=
  .object [field "startTs" (ofOption (fun ts : Int64 => ofInt ts.toInt) h.startTs),
    field "endTs" (ofOption ofFloat h.endTs),
    field "vitals" h.vitals.toJson]

def ChunkHead.toJson (h : ChunkHead) : Value :=
  .object ([field "ts" (ofInt h.ts.toInt), field "duration" (ofFloat h.duration)] ++
    optionalField "meta" Metadata.toJson h.metadata)

/-! ## Reading -/

def Metadata.ofJson? (v : Value) : Option Metadata :=
  match record? ["title", "url"] 0 v with
  | some [title, url] => do
    return { title := ← optional? Value.string? title, url := ← optional? Value.string? url }
  | _ => none

/-- Vitals from a document.  The frame rate may be missing, and then counts as zero. -/
def Vitals.ofJson? (v : Value) : Option Vitals :=
  match record? ["streamKey", "chunkDuration", "framesPerSecond", "contentType"] 2 v with
  | some [some key, some duration, rate, contentType] => do
    let framesPerSecond ← match rate with
      | none => some 0
      | some v => v.double?
    return { streamKey := ← key.string?, chunkDuration := ← duration.double?, framesPerSecond
             contentType := ← optional? Value.string? contentType }
  | _ => none

def Header.ofJson? (v : Value) : Option Header :=
  match record? ["startTs", "endTs", "vitals"] 3 v with
  | some [startTs, endTs, some vitals] => do
    return { startTs := ← optional? Value.int64? startTs, endTs := ← optional? Value.double? endTs
             vitals := ← Vitals.ofJson? vitals }
  | _ => none

def ChunkHead.ofJson? (v : Value) : Option ChunkHead :=
  match record? ["ts", "duration", "meta"] 2 v with
  | some [some ts, some duration, metadata] => do
    return { ts := ← ts.int64?, duration := ← duration.double?
             metadata := ← optional? Metadata.ofJson? metadata }
  | _ => none

/-- The codec of real dumps. -/
def Codec.json : Codec where
  writeHeader h := h.toJson.render
  readHeader bytes := (Json.parse bytes).bind Header.ofJson?
  writeHead h := h.toJson.render
  readHead bytes := (Json.parse bytes).bind ChunkHead.ofJson?

end RewindRelay
