import RewindRelay.Proofs.Dump.Cut
import RewindRelay.Proofs.Dump.Snapshot
import RewindRelay.Proofs.Store.Window
import RewindRelay.Proofs.Stream.Restore
/-!
# Preloading a dump that is cut short

A dump lists the newest chunk first.  If the transport breaks off, the chunks whose frames have come
as a whole are the newest of the snapshot, so what a stream takes over is its audio up to the end,
without a hole, only not from so far back.  Of a cut inside the header nothing is taken over, and
nothing either of a dump whose vitals no stream would use.

* `chunksBy`, `heard` — the chunk frames that end in time, and what a loader gives.
* `Kept` — what a stream is left with.
* `Stream.kept_preloadUntil` — **a cut dump loses only the oldest chunks.**
* `DumpWriter.cut_keepsNewest` — the same of what a writer hands out, with what the loader says.
* `DumpWriter.not_forall_keepsNewest` — where a stream is left with something else.
-/

namespace RewindRelay

open Chunk (Ascending)
open Loader (Call Settled Severed fed found perform takeAll wholeBy)

variable {v : Vitals} {chunks : List Chunk} {place : ℕ}

/-! ## What comes before the cut -/

/-- How many chunk frames of the dump end at a place or before it. -/
def chunksBy (v : Vitals) (chunks : List Chunk) (place : ℕ) : ℕ :=
  endedBy (headerBytes .json (.describe v chunks)).length (chunks.reverse.map (chunkBytes .json))
    place

/-- What a loader gives when the bytes before a place have come: the header, if its frame ends
there or before, and then the newest chunks. -/
def heard (v : Vitals) (chunks : List Chunk) (place : ℕ) : List Frame :=
  if (headerBytes .json (.describe v chunks)).length ≤ place then
    .header
        { startTs := chunks.head?.map Chunk.ts
          endTs := (chunks.getLast?.map Chunk.stop).bind Json.reread?
          vitals := v.reread } ::
      ((chunks.map Chunk.reread).rtake (chunksBy v chunks place)).reverse.map .chunk
  else []

lemma wholeBy_dumpRow (v : Vitals) (chunks : List Chunk) (place : ℕ) :
    wholeBy 0 (dumpRow v chunks) place = heard v chunks place := by
  have hparts : (chunks.reverse.map fun c => (chunkBytes .json c, Frame.chunk c.reread)).map
      Prod.fst = chunks.reverse.map (chunkBytes .json) := by
    rw [List.map_map]
    rfl
  rw [heard, dumpRow]
  split_ifs with hle
  · rw [Loader.wholeBy_cons_of_le (by rwa [Nat.zero_add]), Nat.zero_add, wholeBy, hparts,
      ← chunksBy, List.rtake_eq_reverse_take_reverse, List.reverse_reverse, ← List.map_reverse,
      List.map_take, List.map_map, List.map_take, List.map_map]
    rfl
  · rw [Loader.wholeBy_eq_nil_iff, List.map_cons]
    exact endedBy_cons_of_lt (by rw [Nat.zero_add]; exact Nat.lt_of_not_le hle)

lemma chunksBy_eq_zero (h : place < (headerBytes .json (.describe v chunks)).length) :
    chunksBy v chunks place = 0 :=
  List.countP_eq_zero.mpr fun stop hstop => by
    have hle := le_of_mem_ends hstop
    simp only [decide_eq_true_eq]
    omega

/-! ## What a stream is left with -/

/-- What is left in a stream after a preload of the bytes before a place. -/
structure Kept (v : Vitals) (chunks : List Chunk) (place : ℕ) (s : Stream) : Prop where
  /-- Usable vitals are still usable when they come back. -/
  usable : v.isUsable = true → v.reread.isUsable = true
  /-- The newest chunks of those whose frames have come, as many as the stream may hold, with their
  durations read again. -/
  audio : v.reread.isUsable = true → s.store.chunks =
    (chunks.map Chunk.reread).rtake (min (chunksBy v chunks place) s.store.capacity)
  /-- Vitals that are no use are refused, and the chunks behind them are never looked at. -/
  refused : v.reread.isUsable = false → s.store.chunks = []

/-- The store that is filled with the newest of some chunks, from the newest on. -/
lemma chunks_filled_reverse {capacity : ℕ} (hcap : 1 ≤ capacity) {audio : List Chunk}
    (hasc : Ascending audio) : (Store.filled capacity audio.reverse).2.chunks =
      audio.rtake capacity := by
  have hempty : (Store.empty capacity).chunks = ([] : List Chunk).rtake capacity := by
    rw [List.rtake_nil]
    rfl
  obtain ⟨-, haudio, -⟩ := Store.serveAll_older (s := .empty capacity) hcap audio [] hempty
    (by rwa [List.append_nil])
  rwa [List.append_nil] at haudio

/-- **A cut dump loses only the oldest chunks.** -/
theorem Stream.kept_preloadUntil (hasc : Ascending chunks) (ht : Transferable v chunks)
    (hd : v.chunkDuration.isFinite = true)
    (hread : ∀ x ∈ carried v chunks, x.isFinite = true → Json.ReadsBack x)
    (hplace : place ≤ (dumpParts v chunks).flatten.length) {s : Stream}
    (alive : s.destroyed = false) {pieces : List Bytes}
    (hpieces : pieces.flatten = (dumpParts v chunks).flatten.take place) (ending : Ending) :
    Kept v chunks place (s.preloadUntil .json pieces ending).2 := by
  have hdump := isDump_dumpParts ht hd fun x hx hfinite => (hread x hx hfinite).readable
  have husable : v.isUsable = true → v.reread.isUsable = true := fun hu =>
    Vitals.isUsable_reread hu (hread v.chunkDuration (by simp [carried]) hd)
  obtain ⟨rest, decoded, hdrain, -⟩ := hdump.drain_take hplace
  have hfound : (found .json pieces.flatten).1 = heard v chunks place := by
    rw [found, hpieces, hdrain, wholeBy_dumpRow]
  rw [heard] at hfound
  split_ifs at hfound with hheader
  · have hreread : Ascending (chunks.map Chunk.reread) := List.pairwise_map.mpr hasc
    cases hu : v.reread.isUsable with
    | false =>
        rw [preloadUntil_of_refused hfound hu]
        refine ⟨husable, fun hyes => ?_, fun _ => rfl⟩
        rw [hu] at hyes
        cases hyes
    | true =>
        obtain ⟨s', heq, haudio, hcapacity, -⟩ := preloadUntil_of_accepted alive hfound hu ending
        rw [heq]
        refine ⟨husable, fun _ => ?_, fun hnot => ?_⟩
        · simp only [abandon, haudio, hcapacity]
          rw [chunks_filled_reverse (one_le_lengthBound _ _) (hreread.rtake _), Store.rtake_rtake]
        · rw [hu] at hnot
          cases hnot
  · rw [preloadUntil_of_nothing hfound]
    have hnone : chunksBy v chunks place = 0 := chunksBy_eq_zero (Nat.lt_of_not_le hheader)
    refine ⟨husable, fun _ => ?_, fun _ => rfl⟩
    rw [hnone, Nat.zero_min, List.rtake_zero]
    rfl

/-! ## Dumps as they are handed out -/

namespace DumpWriter

/-- **A cut dump loses only the oldest chunks.**  The dump of a snapshot comes to its end however it
is read.  Of the bytes before any place of it a loader, however it is fed, gives the header if that
is there, and the newest chunks, and at the end it says where the cut is.  A stream that preloads
them is left with the newest chunks, as many as it may hold, if the vitals are usable as they come
back, and with none if they are not.  The chunks come back with their durations read again.  Of
reading numbers it is assumed that a finite double comes back as a finite one, and a positive one as
a positive one; where all come back as themselves, so do the chunks. -/
theorem cut_keepsNewest {v : Vitals} {chunks : List Chunk} (readSize : ℕ)
    (hasc : Ascending chunks) (ht : Transferable v chunks) (hd : v.chunkDuration.isFinite = true)
    (hread : ∀ x ∈ carried v chunks, x.isFinite = true → Json.ReadsBack x) :
    (∀ sizes : ℕ → ℕ, ∃ reads bytes,
      (ofChunks v chunks readSize).Drains .json ((List.range reads).map sizes) bytes) ∧
    (∀ sizes bytes, (ofChunks v chunks readSize).Drains .json sizes bytes →
      ∀ place ≤ bytes.length,
        (∀ calls : List Call, fed calls = bytes.take place →
          ∀ n, (perform .json {} calls).2.buffered < n →
            Severed (dumpParts v chunks) place (heard v chunks place)
              (perform .json {} (calls ++ List.replicate n .next))) ∧
        ∀ s : Stream, s.destroyed = false → ∀ pieces : List Bytes,
          pieces.flatten = bytes.take place → ∀ ending,
            Kept v chunks place (s.preloadUntil .json pieces ending).2) ∧
    ((∀ x ∈ carried v chunks, x.isFinite = true → Json.reread? x = some x) →
      chunks.map Chunk.reread = chunks) := by
  have hfits := ht.fits readSize
  refine ⟨fun sizes => ?_, fun sizes bytes hdrains place hplace => ?_, ht.map_reread⟩
  · obtain ⟨reads, hdrains⟩ := exists_drains hfits sizes
    exact ⟨reads, _, hdrains⟩
  · obtain rfl : bytes = (dumpParts v chunks).flatten := by
      rw [hdrains.eq_rest hfits, ← flatten_frames, frames_ofChunks]
    refine ⟨fun calls hfed n hn => ?_, fun s alive pieces hpieces ending =>
      Stream.kept_preloadUntil hasc ht hd hread hplace alive hpieces ending⟩
    have hdump := isDump_dumpParts ht hd fun x hx hfinite => (hread x hx hfinite).readable
    have hsevered := hdump.severed hplace
    rwa [map_fst_dumpRow, wholeBy_dumpRow, ← hfed, ← Loader.perform_ask calls hn] at hsevered

/-- Chunks with metadata, empty metadata and none. -/
def inOrder : List Chunk :=
  [⟨-500, 500, [1, 2], some { title := some "Müller \"live\"" }⟩, ⟨0, 500.25, [], some {}⟩,
    ⟨500, 0.1, [3], none⟩]

def halfSeconds : Vitals := { streamKey := "aac-\n", chunkDuration := 0.5 }

/-- The dump of chunks with all kinds of metadata, cut anywhere. -/
theorem inOrder_keepsNewest :
    (∀ sizes : ℕ → ℕ, ∃ reads bytes,
      (ofChunks halfSeconds inOrder 100).Drains .json ((List.range reads).map sizes) bytes) ∧
    (∀ sizes bytes, (ofChunks halfSeconds inOrder 100).Drains .json sizes bytes →
      ∀ place ≤ bytes.length,
        (∀ calls : List Call, fed calls = bytes.take place →
          ∀ n, (perform .json {} calls).2.buffered < n →
            Severed (dumpParts halfSeconds inOrder) place (heard halfSeconds inOrder place)
              (perform .json {} (calls ++ List.replicate n .next))) ∧
        ∀ s : Stream, s.destroyed = false → ∀ pieces : List Bytes,
          pieces.flatten = bytes.take place → ∀ ending,
            Kept halfSeconds inOrder place (s.preloadUntil .json pieces ending).2) ∧
    ((∀ x ∈ carried halfSeconds inOrder, x.isFinite = true → Json.reread? x = some x) →
      inOrder.map Chunk.reread = inOrder) :=
  cut_keepsNewest 100 (by decide +kernel)
    ⟨by decide +kernel, by decide +kernel, by decide +kernel, by decide +kernel⟩
    (by decide +kernel) (by decide +kernel)

/-! ## Dumps that are not taken over as they are -/

/-- Of a dump that is cut anywhere a stream is left with the newest chunks, as they were. -/
def KeepsNewest (v : Vitals) (chunks : List Chunk) : Prop :=
  ∀ place ≤ (dumpParts v chunks).flatten.length, ∀ s : Stream, s.destroyed = false →
    ∀ pieces : List Bytes, pieces.flatten = (dumpParts v chunks).flatten.take place → ∀ ending,
      (s.preloadUntil .json pieces ending).2.store.chunks =
        chunks.rtake (min (chunksBy v chunks place)
          (s.preloadUntil .json pieces ending).2.store.capacity)

/-- Vitals that no stream would use. -/
def backwards : Vitals := { streamKey := "a", chunkDuration := -1 }

/-- A chunk whose duration is read back as the next double. -/
def rounded : Chunk := { ts := 0, duration := 0.9523809523809523, data := [0] }

/-- A dump can be written of vitals that no stream would use, and then nothing of it is taken over;
and a duration need not come back as it was. -/
theorem not_forall_keepsNewest :
    (¬ ∀ v chunks, Ascending chunks → Transferable v chunks → v.chunkDuration.isFinite = true →
      (∀ x ∈ carried v chunks, x.isFinite = true → Json.reread? x = some x) →
        KeepsNewest v chunks) ∧
    ¬ ∀ v chunks, Ascending chunks → Transferable v chunks → v.isUsable = true →
      KeepsNewest v chunks := by
  constructor
  · intro h
    have hkeeps := h backwards [{ ts := 0, duration := 1000, data := [0] }] (by decide +kernel)
      ⟨by decide +kernel, by decide +kernel, by decide +kernel, by decide +kernel⟩
      (by decide +kernel) (by decide +kernel) _ le_rfl (.new "main" 300 65536) rfl [_]
      ((List.append_nil _).trans List.take_length.symm) .closed
    have hlength := congrArg List.length hkeeps
    revert hlength
    decide +kernel
  · intro h
    have hkeeps := h { streamKey := "a", chunkDuration := 1 } [rounded] (by decide +kernel)
      ⟨by decide +kernel, by decide +kernel, by decide +kernel, by decide +kernel⟩
      (by decide +kernel) _ le_rfl (.new "main" 300 65536) rfl [_]
      ((List.append_nil _).trans List.take_length.symm) .closed
    have hdurations := congrArg (List.map Chunk.duration) hkeeps
    revert hdurations
    decide +kernel

end DumpWriter

end RewindRelay
