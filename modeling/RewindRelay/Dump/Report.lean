import RewindRelay.Dump.Loader
import RewindRelay.Decimal.Fixed
import RewindRelay.Error
/-!
# Inspecting a dump

A saved dump is summarised in a few lines: the encoding, the span its header declares, and how
much audio it holds.  On request every chunk gets a line of its own, oldest first.

* `Report` — the header and the chunks of a dump.
* `Report.ofFrames` — a report from decoded frames.
* `Report.render` — the text that is printed.
-/

namespace RewindRelay

open Decimal (Layout fixedText padLeft intText)

/-- The contents of a dump, chunks oldest first. -/
structure Report where
  header : Header
  chunks : List Chunk

namespace Report

def headers (frames : List Frame) : List Header :=
  frames.filterMap fun
    | .header h => some h
    | .chunk _ => none

def chunksOf (frames : List Frame) : List Chunk :=
  frames.filterMap fun
    | .header _ => none
    | .chunk c => some c

/-- The report on decoded frames.  Of several headers the last one counts. -/
def ofFrames (frames : List Frame) : Except RelayError Report :=
  match (headers frames).getLast? with
  | some header => .ok { header, chunks := (chunksOf frames).reverse }
  | none => .error (.configuration "dump has no header")

def ofBytes (C : Codec) (bytes : Bytes) : Except RelayError Report :=
  match decodeAll C bytes with
  | .ok frames => ofFrames frames
  | .error e => .error (.frame e)

def totalBytes (r : Report) : Nat := Chunk.totalSize r.chunks

/-- The seconds that all chunks play for.  The sum starts from negative zero, the neutral element
of floating-point addition. -/
def spanSeconds (r : Report) : Float :=
  r.chunks.foldl (fun sum c => sum + c.duration) (-0.0) / 1000

def boundText {α : Type} (write : α → String) : Option α → String
  | none => "None"
  | some a => "Some(" ++ write a ++ ")"

def summary (r : Report) : List String :=
  let v := r.header.vitals
  let first := boundText (fun ts : Int64 => intText ts.toInt) r.header.startTs
  let last := boundText Layout.exact.text r.header.endTs
  ["stream key:     " ++ v.streamKey,
   "chunk duration: " ++ Layout.plain.text v.chunkDuration ++ "s",
   "content type:   " ++ v.contentType.getD "-",
   "span:           " ++ first ++ " .. " ++ last,
   "chunks:         " ++ intText r.chunks.length ++ " (" ++ fixedText 1 r.spanSeconds ++ "s, " ++
     intText r.totalBytes ++ " bytes)"]

def chunkLine (c : Chunk) : String :=
  let title := (c.metadata.bind Metadata.title).getD ""
  padLeft 15 (intText c.ts.toInt) ++ " " ++ padLeft 8 (fixedText 1 c.duration) ++ "ms " ++
    padLeft 7 (intText c.size) ++ "B " ++ title

/-- The text that is printed, with a line for each chunk if asked for. -/
def render (r : Report) (perChunk : Bool) : String :=
  let lines := r.summary ++ if perChunk then r.chunks.map chunkLine else []
  String.join (lines.map (· ++ "\n"))

end Report

end RewindRelay
