import RewindRelay.Proofs.Broadcast.Run
import RewindRelay.Proofs.Dump.Snapshot
import RewindRelay.Proofs.Store.Window
import RewindRelay.Proofs.Stream.Preload
/-!
# Replication

A relay takes over a stream from another one by preloading its dump.  The dump lists the newest
chunk first, so each chunk that arrives is older than all that are there, and once the target is
full the older ones leave as soon as they come in.  What remains is the newest audio of the source.

* `Replicated` — what a preload of the dump makes of a stream.
* `Broadcast.Reachable.replicates` — **a preloaded dump replicates its source.**
-/

namespace RewindRelay

open Chunk (Ascending)
open Loader (Wire)

/-! ## What is said -/

/-- What a preload of a dump of the chunks makes of a stream, with the summary it gives. -/
structure Replicated (v : Vitals) (chunks : List Chunk) (target : Stream)
    (result : Summary × Stream) : Prop where
  header : result.1.header = some (Header.describe v chunks).reread
  error : result.1.error = none
  loaded : result.1.loaded = chunks.length
  skipped : result.1.skipped = 0
  /-- The newest chunks of the source, as many as the target can hold, and nothing else. -/
  audio : result.2.store.chunks = (chunks.map Chunk.reread).rtake result.2.store.capacity
  capacity : result.2.store.capacity =
    Stream.lengthBound target.windowSeconds (some v.reread)
  vitals : result.2.vitals = some v.reread
  /-- Where the doubles come back as themselves nothing differs from the source at all. -/
  exact : (∀ x ∈ carried v chunks, x.isFinite = true → Json.reread? x = some x) →
    result.2.vitals = some v ∧ result.2.store.chunks = chunks.rtake result.2.store.capacity

/-! ## The doubles of a dump -/

/-- Nothing changes where the doubles come back as themselves. -/
lemma reread_eq_self {v : Vitals} {chunks : List Chunk} (hu : v.isUsable = true)
    (ht : Transferable v chunks)
    (h : ∀ x ∈ carried v chunks, x.isFinite = true → Json.reread? x = some x) :
    v.reread = v ∧ chunks.map Chunk.reread = chunks := by
  have hduration := Json.reread_eq_self (h v.chunkDuration (by simp [carried])
    (Vitals.isFinite_of_isUsable hu))
  have hrate := Json.reread_eq_self (h v.framesPerSecond (by simp [carried]) ht.rate)
  exact ⟨by rw [Vitals.reread, hduration, hrate], ht.map_reread h⟩

/-- **A dump is decoded to its frames.** -/
lemma wire_dump {v : Vitals} {chunks : List Chunk} (readSize : ℕ) (ht : Transferable v chunks)
    (hu : v.isUsable = true)
    (hread : ∀ x ∈ carried v chunks, x.isFinite = true → Json.ReadsBack x) :
    Wire .json .header ((DumpWriter.ofChunks v chunks readSize).rest .json)
      (dumpFrames v chunks) := by
  rw [← DumpWriter.flatten_frames, frames_ofChunks]
  exact wire_dumpParts ht (Vitals.isFinite_of_isUsable hu) fun x hx hfinite =>
    (hread x hx hfinite).readable

/-! ## The frames in the target -/

namespace Stream

/-- **The frames of a dump, applied to a stream.** -/
lemma applyAll_dumpFrames {v : Vitals} {chunks : List Chunk} (hasc : Ascending chunks)
    (hv : v.isUsable = true) (hu : v.reread.isUsable = true) (ht : Transferable v chunks)
    {target : Stream} (alive : target.destroyed = false) :
    ∃ result, target.beginPreload.applyAll {} (dumpFrames v chunks) = some result ∧
      Replicated v chunks target ({ result.1 with error := none }, result.2.abandon) := by
  obtain ⟨hempty, hcapacity, hdestroyed, hvitals⟩ := target.updateVitals_beginPreload hu
  set s := (target.beginPreload.updateVitals v.reread).2 with hs
  have hasc' : Ascending (chunks.map Chunk.reread ++ []) := by
    rw [List.append_nil]
    exact List.pairwise_map.mpr hasc
  obtain ⟨hall, haudio, hsame⟩ := Store.serveAll_older (s := s.store)
    (by rw [hcapacity]; exact one_le_lengthBound _ _) (chunks.map Chunk.reread) []
    (by rw [hempty, List.rtake_nil]) hasc'
  have hheader : target.beginPreload.applyFrame {} (.header (Header.describe v chunks).reread) =
      (.ok { header := some (Header.describe v chunks).reread }, s) := by
    rw [applyFrame_header (h := (Header.describe v chunks).reread) hu]
    rfl
  set served := serveAll Store.serve s.store ((chunks.map Chunk.reread).reverse.map .insert)
    with hserved
  have hloaded : served.1.countP InsertOutcome.isStored = chunks.length := by
    rw [List.countP_eq_length.mpr hall, hserved, Store.length_serveAll_insert, List.length_reverse,
      List.length_map]
  have hskipped : served.1.countP (fun o => !o.isStored) = 0 :=
    List.countP_eq_zero.mpr fun o ho => by simp [hall o ho]
  have happly : target.beginPreload.applyAll {} (dumpFrames v chunks) =
      some ({ header := some (Header.describe v chunks).reread, loaded := chunks.length },
        { s with store := served.2 }) := by
    rw [dumpFrames, applyAll, hheader]
    simp only [applyAll_chunks (hdestroyed.trans alive), Summary.foldl_count, ← hserved, hloaded,
      hskipped, Nat.zero_add]
  refine ⟨_, happly, ?_⟩
  exact
    { header := rfl
      error := rfl
      loaded := rfl
      skipped := rfl
      audio := by simp only [abandon, haudio, List.append_nil, hsame]
      capacity := hsame.trans hcapacity
      vitals := hvitals
      exact := fun hself => by
        obtain ⟨hsamevitals, hsamechunks⟩ := reread_eq_self hv ht hself
        refine ⟨hvitals.trans (by rw [hsamevitals]), ?_⟩
        simp only [abandon, haudio, List.append_nil, hsame, hsamechunks] }

end Stream

/-! ## Replication -/

/-- **A preloaded dump replicates its source.**  A dump of a stream in use comes to its end however
it is read; and whatever pieces it is cut into, a preload of it leaves any stream that is not
destroyed with the newest audio of the source and its vitals.  Of reading numbers it is assumed
that a finite double comes back as a finite one, and a positive one as a positive one. -/
theorem Broadcast.Reachable.replicates {b : Broadcast} (hb : Reachable .json b) {v : Vitals}
    (hv : b.stream.vitals = some v) (ht : Transferable v b.stream.store.chunks)
    (hread : ∀ x ∈ carried v b.stream.store.chunks, x.isFinite = true → Json.ReadsBack x) :
    ∃ w, b.stream.dump = .ok w ∧
      (∀ sizes : ℕ → ℕ, ∃ reads bytes, w.Drains .json ((List.range reads).map sizes) bytes) ∧
      ∀ sizes bytes, w.Drains .json sizes bytes → ∀ pieces : List Bytes, pieces.flatten = bytes →
        ∀ target : Stream, target.destroyed = false →
          Replicated v b.stream.store.chunks target
            (target.preload .json (pieces.map .bytes)) := by
  have hsound := hb.sound
  have hu := hsound.usable v hv
  have hduration := hread v.chunkDuration (by simp [carried]) (Vitals.isFinite_of_isUsable hu)
  have hfits : DumpWriter.Fits .json
      (.ofChunks v b.stream.store.chunks b.stream.readSize) :=
    ⟨rfl, ht.header, fun c hc => ht.frames c (List.mem_reverse.mp hc)⟩
  refine ⟨.ofChunks v b.stream.store.chunks b.stream.readSize, by simp [Stream.dump, hv], ?_, ?_⟩
  · intro sizes
    obtain ⟨reads, hdrains⟩ := DumpWriter.exists_drains hfits sizes
    exact ⟨reads, _, hdrains⟩
  · intro sizes bytes hdrains pieces hpieces target alive
    obtain ⟨result, happly, hreplicated⟩ := Stream.applyAll_dumpFrames hsound.ascending
      hu (Vitals.isUsable_reread hu hduration) ht alive
    rw [hdrains.eq_rest hfits] at hpieces
    rw [Stream.preload_of_wire (wire_dump b.stream.readSize ht hu hread) happly hpieces]
    exact hreplicated

namespace Broadcast

/-- A stream with chunks that have metadata, empty metadata and none. -/
def tagged : Broadcast :=
  run .json (new "main" 3 65536)
    [.operate (.updateVitals
        { streamKey := "aac-\n", chunkDuration := 0.5, contentType := some "audio/aac" }),
      .operate (.push ⟨-500, 500, [1, 2], some { title := some "Müller \"live\"" }⟩),
      .operate (.push ⟨0, 500.25, [], some {}⟩), .operate (.push ⟨500, 0.1, [3], none⟩)]

lemma isSome_vitals_tagged : tagged.stream.vitals.isSome = true := by decide +kernel

/-- The dump of a stream with all kinds of metadata. -/
theorem replicates_tagged :
    ∃ w, tagged.stream.dump = .ok w ∧
      (∀ sizes : ℕ → ℕ, ∃ reads bytes, w.Drains .json ((List.range reads).map sizes) bytes) ∧
      ∀ sizes bytes, w.Drains .json sizes bytes → ∀ pieces : List Bytes, pieces.flatten = bytes →
        ∀ target : Stream, target.destroyed = false →
          Replicated (tagged.stream.vitals.get isSome_vitals_tagged) tagged.stream.store.chunks
            target (target.preload .json (pieces.map .bytes)) :=
  Reachable.replicates (reachable_run .json (.new "main" 3 65536) _)
    (Option.some_get isSome_vitals_tagged).symm
    ⟨by decide +kernel, by decide +kernel, by decide +kernel, by decide +kernel⟩
    (by decide +kernel)

end Broadcast

end RewindRelay
