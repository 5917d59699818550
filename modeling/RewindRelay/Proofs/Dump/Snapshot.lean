import RewindRelay.Dump.Report
import RewindRelay.Proofs.Dump.Document
import RewindRelay.Proofs.Dump.Grammar
import RewindRelay.Proofs.Dump.Writer
/-!
# The dump of a snapshot

A dump can carry a snapshot if its texts and payloads fit the frames and its numbers are finite.
The chunks may be in any order.  How the dump is read decides only where one piece ends and the
next begins, and what is decoded from the pieces is the snapshot with its numbers read again.

* `Transferable`, `carried` — what a dump can carry, and the doubles in it.
* `dumpParts`, `dumpFrames` — the frames of a dump, encoded and decoded.
* `isDump_dumpParts`, `wire_dumpParts` — **a dump is decoded to its frames.**
* `Report.ofFrames_dumpFrames` — the snapshot is seen in its own order again.
* `DumpWriter.snapshot_readsBack` — **a snapshot reads back, in whatever pieces it is read.**
-/

namespace RewindRelay

open Loader (Wire Spells IsDump)

/-- A chunk with its duration read again.  The rest of it is as it was. -/
def Chunk.reread (c : Chunk) : Chunk := { c with duration := Json.reread c.duration }

/-- The doubles in a dump. -/
def carried (v : Vitals) (chunks : List Chunk) : List Float :=
  v.chunkDuration :: v.framesPerSecond ::
    ((Header.describe v chunks).endTs.toList ++ chunks.map Chunk.duration)

/-- A dump can carry the chunks: they fit the frames, and their numbers are finite. -/
structure Transferable (v : Vitals) (chunks : List Chunk) : Prop where
  header : (Header.describe v chunks).Fits .json
  frames : ∀ c ∈ chunks, c.Fits .json
  rate : v.framesPerSecond.isFinite = true
  durations : ∀ c ∈ chunks, c.duration.isFinite = true

variable {v : Vitals} {chunks : List Chunk}

lemma mem_carried_duration {c : Chunk} (hc : c ∈ chunks) : c.duration ∈ carried v chunks := by
  have hmem : c.duration ∈ chunks.map Chunk.duration := List.mem_map_of_mem hc
  simp only [carried, List.mem_cons, List.mem_append, hmem, or_true]

/-- The chunks of a dump are what they were where their durations come back as themselves. -/
lemma Transferable.map_reread (ht : Transferable v chunks)
    (h : ∀ x ∈ carried v chunks, x.isFinite = true → Json.reread? x = some x) :
    chunks.map Chunk.reread = chunks := by
  refine (List.map_congr_left fun c hc => ?_).trans (List.map_id chunks)
  have hmem : c.duration ∈ carried v chunks := mem_carried_duration hc
  rw [Chunk.reread, Json.reread_eq_self (h c.duration hmem (ht.durations c hc))]
  rfl

/-! ## Frames -/

/-- The frames that a dump is written as. -/
def dumpParts (v : Vitals) (chunks : List Chunk) : List Bytes :=
  headerBytes .json (Header.describe v chunks) :: chunks.reverse.map (chunkBytes .json)

/-- The frames that a dump is decoded to. -/
def dumpFrames (v : Vitals) (chunks : List Chunk) : List Frame :=
  .header (Header.describe v chunks).reread ::
    (chunks.map Chunk.reread).reverse.map .chunk

lemma frames_ofChunks (v : Vitals) (chunks : List Chunk) (readSize : ℕ) :
    (DumpWriter.ofChunks v chunks readSize).frames .json = dumpParts v chunks := rfl

lemma Transferable.fits (ht : Transferable v chunks) (readSize : ℕ) :
    (DumpWriter.ofChunks v chunks readSize).Fits .json :=
  ⟨rfl, ht.header, fun c hc => ht.frames c (List.mem_reverse.mp hc)⟩

/-- The frames of a dump, each as it is written and as it is decoded. -/
def dumpRow (v : Vitals) (chunks : List Chunk) : List (Bytes × Frame) :=
  (headerBytes .json (Header.describe v chunks), .header (Header.describe v chunks).reread) ::
    chunks.reverse.map fun c => (chunkBytes .json c, .chunk c.reread)

lemma map_fst_dumpRow (v : Vitals) (chunks : List Chunk) :
    (dumpRow v chunks).map Prod.fst = dumpParts v chunks := by
  rw [dumpRow, List.map_cons, List.map_map]
  rfl

lemma map_snd_dumpRow (v : Vitals) (chunks : List Chunk) :
    (dumpRow v chunks).map Prod.snd = dumpFrames v chunks := by
  rw [dumpRow, List.map_cons, List.map_map, dumpFrames, ← List.map_reverse, List.map_map]
  rfl

/-- **A dump is one.** -/
theorem isDump_dumpParts (ht : Transferable v chunks) (hd : v.chunkDuration.isFinite = true)
    (hread : ∀ x ∈ carried v chunks, x.isFinite = true → Json.Readable x) :
    IsDump .json (dumpParts v chunks).flatten (dumpRow v chunks) where
  row := by
    have hduration := hread v.chunkDuration (by simp [carried]) hd
    have hrate : Json.Readable v.framesPerSecond := hread _ (by simp [carried]) ht.rate
    have hend : ∀ x, (Header.describe v chunks).endTs = some x → x.isFinite = true →
        Json.Readable x := fun x hx => hread x (by simp [carried, hx])
    refine .cons (Loader.spells_headerBytes ht.header
      (Codec.readHeader_writeHeader hduration hrate hend)) (Loader.row_chunks fun c hc => ?_)
    have hmem : c ∈ chunks := List.mem_reverse.mp hc
    have hback := hread c.duration (mem_carried_duration hmem) (ht.durations c hmem)
    exact Loader.spells_chunkBytes (ht.frames c hmem) (Codec.readHead_writeHead hback)
  ne_nil := List.cons_ne_nil _ _
  whole := by rw [Loader.joined, map_fst_dumpRow]

/-- **A dump is decoded to its frames.** -/
theorem wire_dumpParts (ht : Transferable v chunks) (hd : v.chunkDuration.isFinite = true)
    (hread : ∀ x ∈ carried v chunks, x.isFinite = true → Json.Readable x) :
    Wire .json .header (dumpParts v chunks).flatten (dumpFrames v chunks) := by
  rw [← map_snd_dumpRow]
  exact (isDump_dumpParts ht hd hread).wire

/-! ## Reports -/

lemma Report.headers_chunks (chunks : List Chunk) : headers (chunks.map .chunk) = [] := by
  simp [headers, List.filterMap_map]

lemma Report.chunksOf_chunks (chunks : List Chunk) : chunksOf (chunks.map .chunk) = chunks := by
  simp [chunksOf, List.filterMap_map]

/-- A report lists the chunks in the order of the snapshot. -/
lemma Report.ofFrames_dumpFrames (v : Vitals) (chunks : List Chunk) :
    Report.ofFrames (dumpFrames v chunks) =
      .ok ⟨(Header.describe v chunks).reread, chunks.map Chunk.reread⟩ := by
  have hheaders : headers (dumpFrames v chunks) = [(Header.describe v chunks).reread] := by
    have hnone := headers_chunks (chunks.map Chunk.reread).reverse
    rw [headers] at hnone
    rw [dumpFrames, headers, List.filterMap_cons, hnone]
  have hchunks : chunksOf (dumpFrames v chunks) = (chunks.map Chunk.reread).reverse :=
    chunksOf_chunks _
  rw [ofFrames, hheaders, hchunks, List.reverse_reverse]
  rfl

/-! ## All of it -/

namespace DumpWriter

/-- **A snapshot reads back, in whatever pieces it is read.**  No read of its dump fails, and each
hands out whole frames; all of them in a row are decoded to a header and the chunks, newest first.
The header says when the first chunk starts and the last one stops, whichever these are, and gives
the vitals; and a report shows the chunks in their own order.  Of reading numbers it is assumed that
what is written for a finite double is accepted. -/
theorem snapshot_readsBack {v : Vitals} {chunks : List Chunk} (readSize : ℕ)
    (ht : Transferable v chunks) (hd : v.chunkDuration.isFinite = true)
    (hread : ∀ x ∈ carried v chunks, x.isFinite = true → Json.Readable x) :
    (∀ sizes : ℕ → ℕ, ∃ groups, Groups (dumpParts v chunks) sizes groups ∧
      ∀ i, ((after .json (ofChunks v chunks readSize) sizes i).read .json (sizes i)).1 =
        .ok (groups[i]?.map List.flatten)) ∧
    ∃ header : Header,
      header.startTs = chunks.head?.map Chunk.ts ∧
      header.endTs = (chunks.getLast?.map Chunk.stop).bind Json.reread? ∧
      header.vitals = v.reread ∧
      decodeAll .json (dumpParts v chunks).flatten =
        .ok (.header header :: (chunks.map Chunk.reread).reverse.map .chunk) ∧
      Report.ofFrames (.header header :: (chunks.map Chunk.reread).reverse.map .chunk) =
        .ok ⟨header, chunks.map Chunk.reread⟩ := by
  refine ⟨fun sizes => ?_, (Header.describe v chunks).reread, rfl, rfl, rfl,
    (wire_dumpParts ht hd hread).decodeAll_eq, Report.ofFrames_dumpFrames v chunks⟩
  rw [← frames_ofChunks v chunks readSize]
  exact exists_groups (ht.fits readSize) sizes

/-- Chunks that are not in order, with metadata, empty metadata and none. -/
def shuffled : List Chunk :=
  [⟨500, 0.1, [3], none⟩, ⟨-500, 500, [1, 2], some { title := some "Müller \"live\"" }⟩,
    ⟨0, 500.25, [], some {}⟩]

/-- Vitals that no stream would take over. -/
def idle : Vitals := { streamKey := "aac-\n", chunkDuration := 0 }

/-- The dump of chunks in no order.  Its header is about the first and the last of them. -/
theorem shuffled_readsBack :
    (∀ sizes : ℕ → ℕ, ∃ groups, Groups (dumpParts idle shuffled) sizes groups ∧
      ∀ i, ((after .json (ofChunks idle shuffled 100) sizes i).read .json (sizes i)).1 =
        .ok (groups[i]?.map List.flatten)) ∧
    ∃ header : Header,
      header.startTs = some 500 ∧ header.endTs = some 500.25 ∧ header.vitals = idle.reread ∧
      decodeAll .json (dumpParts idle shuffled).flatten =
        .ok (.header header :: (shuffled.map Chunk.reread).reverse.map .chunk) ∧
      Report.ofFrames (.header header :: (shuffled.map Chunk.reread).reverse.map .chunk) =
        .ok ⟨header, shuffled.map Chunk.reread⟩ := by
  have ht : Transferable idle shuffled :=
    ⟨by decide +kernel, by decide +kernel, by decide +kernel, by decide +kernel⟩
  obtain ⟨hgroups, header, hstart, hend, hvitals, hdecoded, hreport⟩ :=
    snapshot_readsBack 100 ht (by decide +kernel) (by decide +kernel)
  have hlast : (shuffled.getLast?.map Chunk.stop).bind Json.reread? = some 500.25 := by
    decide +kernel
  exact ⟨hgroups, header, hstart, hend.trans hlast, hvitals, hdecoded, hreport⟩

end DumpWriter

end RewindRelay
