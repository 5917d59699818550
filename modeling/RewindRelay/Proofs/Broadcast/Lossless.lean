import RewindRelay.Proofs.Broadcast.Replication
/-!
# Replication without loss

A replica that can hold all of a dump has the chunks and the vitals of its source, with each number
read again from its digits.  Nothing is lost exactly if each number comes back as itself: then the
replica's own dump is the same bytes, and a replica of the replica has them again.  A number may
come back as its neighbour, and then it is a different one in the replica.

* `numbers` — the numbers of a dump, but for the one that is computed from the others.
* `Lossless` — a replica that differs from its source in nothing.
* `Broadcast.Handover` — a dump, read to its end, and a stream that can hold all of it.
* `Broadcast.Reachable.lossless_iff` — **nothing is lost exactly if every number comes back as
  itself.**
* `Broadcast.not_forall_lossless` — a chunk that plays for 4096 / 44100 seconds.
-/

namespace RewindRelay

/-- The numbers of vitals and chunks. -/
def numbers (v : Vitals) (chunks : List Chunk) : List Float :=
  v.chunkDuration :: v.framesPerSecond :: chunks.map Chunk.duration

/-- The stream has these vitals and chunks, and its dump is these bytes, however it is read. -/
structure Lossless (v : Vitals) (chunks : List Chunk) (bytes : Bytes) (replica : Stream) :
    Prop where
  vitals : replica.vitals = some v
  chunks : replica.store.chunks = chunks
  dump : ∃ w, replica.dump = .ok w ∧
    (∀ sizes : ℕ → ℕ, ∃ reads, w.Drains .json ((List.range reads).map sizes) bytes) ∧
    ∀ sizes bytes', w.Drains .json sizes bytes' → bytes' = bytes

variable {v : Vitals} {chunks : List Chunk}

lemma mem_numbers_duration {c : Chunk} (hc : c ∈ chunks) : c.duration ∈ numbers v chunks := by
  have hmem : c.duration ∈ chunks.map Chunk.duration := List.mem_map_of_mem hc
  simp only [numbers, List.mem_cons, hmem, or_true]

lemma Transferable.isFinite_of_mem (ht : Transferable v chunks) (hu : v.isUsable = true) :
    ∀ x ∈ numbers v chunks, x.isFinite = true := by
  simp only [numbers, List.forall_mem_cons, List.forall_mem_map]
  exact ⟨Vitals.isFinite_of_isUsable hu, ht.rate, ht.durations⟩

/-- A finite number is not changed by being read again exactly if it comes back as itself. -/
lemma Json.reread_eq_self_iff {x : Float} (h : x.isFinite = true) :
    reread x = x ↔ reread? x = some x := by
  refine ⟨fun hself => ?_, reread_eq_self⟩
  rw [((readable_iff x).mpr h).reread?_eq, hself]

/-- Vitals and chunks are not changed by being read again exactly if their numbers come back as
themselves. -/
lemma reread_eq_self_iff (ht : Transferable v chunks) (hu : v.isUsable = true) :
    v.reread = v ∧ chunks.map Chunk.reread = chunks ↔
      ∀ x ∈ numbers v chunks, Json.reread? x = some x := by
  have hfinite := ht.isFinite_of_mem hu
  have hduration := Json.reread_eq_self_iff (hfinite v.chunkDuration (by simp [numbers]))
  have hrate := Json.reread_eq_self_iff (hfinite v.framesPerSecond (by simp [numbers]))
  constructor
  · rintro ⟨hvitals, hchunks⟩
    simp only [numbers, List.forall_mem_cons, List.forall_mem_map]
    refine ⟨hduration.mp (congrArg Vitals.chunkDuration hvitals),
      hrate.mp (congrArg Vitals.framesPerSecond hvitals), fun c hc => ?_⟩
    have hself : c.reread = c := List.map_inj_left.mp (hchunks.trans (List.map_id _).symm) c hc
    exact (Json.reread_eq_self_iff (hfinite _ (mem_numbers_duration hc))).mp
      (congrArg Chunk.duration hself)
  · intro hself
    have hvitals : v.reread = v := by
      rw [Vitals.reread, hduration.mpr (hself _ (by simp [numbers])),
        hrate.mpr (hself _ (by simp [numbers]))]
    refine ⟨hvitals, (List.map_congr_left fun c hc => ?_).trans (List.map_id chunks)⟩
    rw [Chunk.reread, Json.reread_eq_self (hself _ (mem_numbers_duration hc))]
    rfl

namespace Stream

/-- A stream with the vitals and chunks of a dump has that dump. -/
lemma lossless_of_eq (ht : Transferable v chunks) {replica : Stream}
    (hvitals : replica.vitals = some v) (hchunks : replica.store.chunks = chunks) :
    Lossless v chunks (dumpParts v chunks).flatten replica where
  vitals := hvitals
  chunks := hchunks
  dump := by
    have hfits := ht.fits replica.readSize
    have hrest : (DumpWriter.ofChunks v chunks replica.readSize).rest .json =
        (dumpParts v chunks).flatten := by
      rw [← DumpWriter.flatten_frames, frames_ofChunks]
    refine ⟨.ofChunks v chunks replica.readSize, by simp [Stream.dump, hvitals, hchunks],
      fun sizes => ?_, fun sizes bytes hdrains => ?_⟩
    · rw [← hrest]
      exact DumpWriter.exists_drains hfits sizes
    · rw [← hrest]
      exact hdrains.eq_rest hfits

end Stream

namespace Broadcast

/-! ## From a source to a replica -/

/-- The dump of a stream has been read to its end, in these pieces, and the target can hold all of
it once it has taken over the vitals. -/
structure Handover (b : Broadcast) (v : Vitals) (pieces : List Bytes) (target : Stream) : Prop where
  vitals : b.stream.vitals = some v
  transferable : Transferable v b.stream.store.chunks
  complete : ∃ w sizes, b.stream.dump = .ok w ∧ w.Drains .json sizes pieces.flatten
  alive : target.destroyed = false
  room : b.stream.store.chunks.length ≤ Stream.lengthBound target.windowSeconds (some v.reread)

variable {b : Broadcast} {pieces : List Bytes} {target : Stream}

lemma Handover.flatten_eq (h : Handover b v pieces target) :
    pieces.flatten = (dumpParts v b.stream.store.chunks).flatten := by
  obtain ⟨w, sizes, hdump, hdrains⟩ := h.complete
  obtain rfl : DumpWriter.ofChunks v b.stream.store.chunks b.stream.readSize = w := by
    simpa [Stream.dump, h.vitals] using hdump
  rw [hdrains.eq_rest (h.transferable.fits b.stream.readSize), ← DumpWriter.flatten_frames,
    frames_ofChunks]

/-- The replica has the vitals and chunks of the source, read again. -/
lemma Handover.preload_spec (h : Handover b v pieces target) (hb : Reachable .json b) :
    (target.preload .json (pieces.map .bytes)).2.vitals = some v.reread ∧
      (target.preload .json (pieces.map .bytes)).2.store.chunks =
        b.stream.store.chunks.map Chunk.reread := by
  have hsound := hb.sound
  have hu := hsound.usable v h.vitals
  have hd := Vitals.isFinite_of_isUsable hu
  obtain ⟨result, happly, hreplicated⟩ := Stream.applyAll_dumpFrames hsound.ascending hu
    (Vitals.isUsable_reread hu (Json.readsBack_of_isFinite hd)) h.transferable h.alive
  have hwire := wire_dumpParts h.transferable hd fun x _ => (Json.readable_iff x).mpr
  have hpreload := Stream.preload_of_wire hwire happly h.flatten_eq
  rw [← hpreload] at hreplicated
  refine ⟨hreplicated.vitals, ?_⟩
  rw [hreplicated.audio, hreplicated.capacity, Store.rtake_eq_self]
  rw [List.length_map]
  exact h.room

/-- **Nothing is lost exactly if every number comes back as itself.**  The target is any stream that
is not destroyed and can hold all chunks of the dump, and the dump comes in any pieces. -/
theorem Reachable.lossless_iff (hb : Reachable .json b) (h : Handover b v pieces target) :
    Lossless v b.stream.store.chunks pieces.flatten (target.preload .json (pieces.map .bytes)).2 ↔
      ∀ x ∈ numbers v b.stream.store.chunks, Json.reread? x = some x := by
  obtain ⟨hvitals, hchunks⟩ := h.preload_spec hb
  rw [← reread_eq_self_iff h.transferable (hb.sound.usable v h.vitals)]
  constructor
  · intro hlossless
    have hsame := hlossless.vitals.symm.trans hvitals
    exact ⟨(Option.some.inj hsame).symm, hchunks.symm.trans hlossless.chunks⟩
  · rintro ⟨hsamevitals, hsamechunks⟩
    rw [h.flatten_eq]
    exact Stream.lossless_of_eq h.transferable (by rw [hvitals, hsamevitals])
      (hchunks.trans hsamechunks)

/-- A dump is handed over in any pieces that are its bytes. -/
lemma handover_of_flatten_eq (target : Stream) (hv : b.stream.vitals = some v)
    (ht : Transferable v b.stream.store.chunks) (alive : target.destroyed = false)
    (hroom : b.stream.store.chunks.length ≤
      Stream.lengthBound target.windowSeconds (some v.reread))
    (hpieces : pieces.flatten = (dumpParts v b.stream.store.chunks).flatten) :
    Handover b v pieces target where
  vitals := hv
  transferable := ht
  complete := by
    obtain ⟨reads, hdrains⟩ := DumpWriter.exists_drains (ht.fits b.stream.readSize) fun _ => 1
    rw [← DumpWriter.flatten_frames, frames_ofChunks, ← hpieces] at hdrains
    exact ⟨_, _, by simp only [Stream.dump, hv], hdrains⟩
  alive := alive
  room := hroom

/-- A replica of the stream whose chunks have all kinds of metadata. -/
theorem lossless_tagged :
    ∃ pieces, Handover tagged (tagged.stream.vitals.get isSome_vitals_tagged) pieces
        (.new "copy" 2 1) ∧
      Lossless (tagged.stream.vitals.get isSome_vitals_tagged) tagged.stream.store.chunks
        pieces.flatten ((Stream.new "copy" 2 1).preload .json (pieces.map .bytes)).2 := by
  have hhandover := handover_of_flatten_eq (b := tagged) (.new "copy" 2 1)
    (Option.some_get isSome_vitals_tagged).symm
    ⟨by decide +kernel, by decide +kernel, by decide +kernel, by decide +kernel⟩ rfl
    (by decide +kernel) rfl
  exact ⟨_, hhandover, (Reachable.lossless_iff (reachable_run .json (.new "main" 3 65536) _)
    hhandover).mpr (by decide +kernel)⟩

/-- A chunk of four frames, each with 1024 samples of which there are 44100 in a second. -/
def fourFrames : Broadcast :=
  run .json (new "main" 3 65536)
    [.operate (.updateVitals { streamKey := "aac", chunkDuration := 0.09287981859410431 }),
      .operate (.push ⟨0, 92.87981859410431, [1], none⟩)]

lemma isSome_vitals_fourFrames : fourFrames.stream.vitals.isSome = true := by decide +kernel

/-- Not every replica is without loss: here both durations come back as their neighbours. -/
theorem not_forall_lossless :
    ¬ ∀ (b : Broadcast) (v : Vitals) (pieces : List Bytes) (target : Stream), Reachable .json b →
      Handover b v pieces target →
      Lossless v b.stream.store.chunks pieces.flatten
        (target.preload .json (pieces.map .bytes)).2 := by
  intro h
  have hb : Reachable .json fourFrames := reachable_run .json (.new "main" 3 65536) _
  have hhandover := handover_of_flatten_eq (b := fourFrames) (.new "copy" 2 1)
    (Option.some_get isSome_vitals_fourFrames).symm
    ⟨by decide +kernel, by decide +kernel, by decide +kernel, by decide +kernel⟩ rfl
    (by decide +kernel) rfl
  have hsame := (h _ _ _ _ hb hhandover).vitals
  rw [(hhandover.preload_spec hb).1] at hsame
  exact absurd (congrArg Vitals.chunkDuration (Option.some.inj hsame)) (by decide +kernel)

end Broadcast

end RewindRelay
