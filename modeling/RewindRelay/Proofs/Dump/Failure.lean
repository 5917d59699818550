import RewindRelay.Dump.Document
import RewindRelay.Proofs.Dump.Writer
/-!
# Dumps that fail

A chunk that cannot be framed ends its dump.  The read that comes to it reports why, and has nothing
else to hand out: the frames that it had gathered by then are lost.  All frames before them have
been read, as few by each read as it takes to reach its size, so how much is lost depends on the
sizes; but it is less than one read, and nothing if each read asks for one byte.

* `DumpWriter.Doomed` — a dump that will come to such a chunk.
* `DumpWriter.read_doomed` — **one read** hands out frames or fails.
* `DumpWriter.Stops` — pieces, one error, and nothing more.
* `DumpWriter.Failure` — what each read of a schedule hands out, and what is lost.
* `DumpWriter.failure` — **every dump with such a chunk fails at the newest of them.**
* `DumpWriter.not_forall_delivered` — a dump that loses its header and a chunk.
-/

namespace RewindRelay.DumpWriter

variable {C : Codec} {w : DumpWriter} {newer older : List Chunk} {bad : Chunk} {e : FrameError}

/-! ## One read -/

/-- The dump will come to a chunk that cannot be framed, after chunks that can. -/
structure Doomed (C : Codec) (w : DumpWriter) (newer : List Chunk) (bad : Chunk)
    (older : List Chunk) (e : FrameError) : Prop where
  intact : w.failed = false
  header : w.header.Fits C
  pending : w.pending = newer ++ bad :: older
  fits : ∀ c ∈ newer, c.Fits C
  unfit : chunkFrame C bad = .error e

/-- The frames that come before that chunk. -/
def ahead (C : Codec) (w : DumpWriter) (newer : List Chunk) : List Bytes :=
  w.opener C ++ newer.map (chunkBytes C)

/-- The frames that a read of this size hands out when it does not come to the end. -/
structure Full (size : ℕ) (group : List Bytes) : Prop where
  /-- Without its last frame it would fall short. -/
  short : group.dropLast.flatten.length < max size 1
  reached : max size 1 ≤ group.flatten.length

lemma Full.ne_nil {size : ℕ} {group : List Bytes} (h : Full size group) : group ≠ [] := by
  rintro rfl
  have hreached := h.reached
  simp at hreached

/-- **One read.**  It reaches its size before the chunk that cannot be framed, or it fails there. -/
theorem read_doomed (h : Doomed C w newer bad older e) (size : ℕ) :
    (∃ w' group left, Doomed C w' left bad older e ∧
        w.ahead C newer = group ++ w'.ahead C left ∧ Full size group ∧
        w.read C size = (.ok (some group.flatten), w')) ∨
      ∃ w', w'.failed = true ∧ (w.ahead C newer).flatten.length < max size 1 ∧
        w.read C size = (.error e, w') := by
  obtain ⟨taken, left, rfl, htaken⟩ :=
    exists_taken C (max size 1) (w.opener C).flatten.length newer
  have hpending : w.pending = taken ++ (left ++ bad :: older) := by
    rw [h.pending, List.append_assoc]
  have hfits : ∀ c ∈ taken, c.Fits C := fun c hc => h.fits c (List.mem_append_left _ hc)
  have hread := read_of_taken h.intact h.header hpending hfits htaken.short
  have hshort := length_dropLast_lt C w htaken.short
  have hreached := htaken.reached
  rw [← List.length_append, ← flatten_opener_append] at hreached
  have hahead : w.ahead C (taken ++ left) =
      w.opener C ++ taken.map (chunkBytes C) ++ left.map (chunkBytes C) := by
    rw [ahead, List.map_append, List.append_assoc]
  generalize w.opener C ++ taken.map (chunkBytes C) = group at hread hshort hreached hahead
  by_cases hle : max size 1 ≤ group.flatten.length
  · have hfull : Full size group := ⟨hshort, hle⟩
    have hne : group.flatten ≠ [] := by
      intro hnil
      rw [hnil] at hle
      simp at hle
    rw [gather_of_le hle] at hread
    simp only [List.append_nil, List.isEmpty_iff, if_neg hne] at hread
    refine Or.inl ⟨_, group, left, ?_, ?_, hfull, hread⟩
    · exact ⟨h.intact, h.header, rfl, fun c hc => h.fits c (List.mem_append_right _ hc), h.unfit⟩
    · rw [hahead]
      rfl
  · obtain rfl : left = [] := by
      by_contra hne
      exact hle (hreached hne)
    have hlt : group.flatten.length < max size 1 := not_le.mp hle
    rw [List.nil_append, gather, if_pos hlt, h.unfit] at hread
    simp only [List.map_nil, List.append_nil] at hahead
    refine Or.inr ⟨_, ?_, ?_, hread⟩
    · rfl
    · rwa [List.append_nil, hahead]

/-! ## A schedule of reads -/

/-- What the reads of a schedule answer. -/
def answer (C : Codec) (w : DumpWriter) (sizes : ℕ → ℕ) (i : ℕ) :
    Except FrameError (Option Bytes) :=
  ((w.after C sizes i).read C (sizes i)).1

lemma answer_succ (w : DumpWriter) (sizes : ℕ → ℕ) (i : ℕ) :
    w.answer C sizes (i + 1) =
      answer C (w.read C (sizes 0)).2 (fun i => sizes (i + 1)) i := by
  rw [answer, after_succ, answer]

lemma answer_of_failed (h : w.failed = true) (sizes : ℕ → ℕ) (i : ℕ) :
    w.answer C sizes i = .ok none := by
  have hread : ∀ size, w.read C size = (.ok none, w) := fun size => by rw [read, if_pos h]
  induction i generalizing sizes with
  | zero => rw [answer, after, hread]
  | succ i ih => rw [answer_succ, hread, ih]

/-- The reads hand out these pieces, then report this error, once, and then nothing. -/
def Stops (C : Codec) (w : DumpWriter) (sizes : ℕ → ℕ) (pieces : List Bytes) (e : FrameError) :
    Prop :=
  ∀ i, w.answer C sizes i = if i = pieces.length then .error e else .ok pieces[i]?

/-- The reads hand out these groups of frames, and then one fails, with which the others are
lost. -/
structure Failure (C : Codec) (w : DumpWriter) (sizes : ℕ → ℕ) (frames : List Bytes)
    (groups : List (List Bytes)) (lost : List Bytes) (e : FrameError) : Prop where
  whole : frames = groups.flatten ++ lost
  full : ∀ i group, groups[i]? = some group → Full (sizes i) group
  /-- What is lost is less than the read that fails has asked for. -/
  short : lost.flatten.length < max (sizes groups.length) 1
  stops : w.Stops C sizes (groups.map List.flatten) e

/-- **All reads.** -/
theorem exists_failure (h : Doomed C w newer bad older e) (sizes : ℕ → ℕ) :
    ∃ groups lost, Failure C w sizes (w.ahead C newer) groups lost e := by
  -- every read that does not fail hands out a frame at least
  induction hlen : (w.ahead C newer).length using Nat.strongRecOn
    generalizing w newer sizes with
  | _ n ih =>
      rcases read_doomed h (sizes 0) with
        ⟨w', group, left, hdoomed, hahead, hfull, hread⟩ | ⟨w', hfailed, hshort, hread⟩
      · have hpos : 0 < group.length := List.length_pos_iff.mpr hfull.ne_nil
        have hshorter : (w'.ahead C left).length < n := by
          rw [← hlen, hahead, List.length_append]
          omega
        obtain ⟨groups, lost, hrest⟩ := ih _ hshorter hdoomed (fun i => sizes (i + 1)) rfl
        refine ⟨group :: groups, lost, ?_, fun i g hg => ?_, hrest.short, fun i => ?_⟩
        · rw [hahead, hrest.whole, List.flatten_cons, List.append_assoc]
        · cases i with
          | zero => cases hg; exact hfull
          | succ i => exact hrest.full i g hg
        · cases i with
          | zero => rw [answer, after, hread]; rfl
          | succ i =>
              rw [answer_succ, hread, hrest.stops i]
              simp
      · refine ⟨[], w.ahead C newer, rfl, by simp, hshort, fun i => ?_⟩
        cases i with
        | zero => rw [answer, after, hread]; rfl
        | succ i => rw [answer_succ, hread, answer_of_failed hfailed]; rfl

/-! ## Dumps of a snapshot -/

/-- The newest of the chunks that cannot be framed. -/
lemma exists_newest_unfit {chunks : List Chunk} (h : ∃ c ∈ chunks, ¬ c.Fits C) :
    ∃ older bad newer, chunks = older ++ bad :: newer ∧ ¬ bad.Fits C ∧ ∀ c ∈ newer, c.Fits C := by
  induction chunks using List.reverseRecOn with
  | nil =>
      obtain ⟨c, hc, -⟩ := h
      cases hc
  | append_singleton chunks last ih =>
      by_cases hlast : last.Fits C
      · have hrest : ∃ c ∈ chunks, ¬ c.Fits C := by
          obtain ⟨c, hc, hunfit⟩ := h
          rcases List.mem_append.mp hc with hc | hc
          · exact ⟨c, hc, hunfit⟩
          · rw [List.mem_singleton.mp hc] at hunfit
            exact absurd hlast hunfit
        obtain ⟨older, bad, newer, rfl, hbad, hnewer⟩ := ih hrest
        refine ⟨older, bad, newer ++ [last], by simp, hbad, ?_⟩
        exact List.forall_mem_append.mpr ⟨hnewer, by simpa using hlast⟩
      · exact ⟨chunks, last, [], rfl, hlast, nofun⟩

lemma exists_error_of_not_fits {c : Chunk} (h : ¬ c.Fits C) : ∃ e, chunkFrame C c = .error e := by
  cases hframe : chunkFrame C c with
  | error e => exact ⟨e, rfl⟩
  | ok bytes => exact absurd (chunkFrame_eq_ok_iff.mp hframe).1 h

/-- A dump of the chunks, from the header to the oldest of them. -/
def snapshotFrames (C : Codec) (header : Header) (chunks : List Chunk) : List Bytes :=
  headerBytes C header :: chunks.reverse.map (chunkBytes C)

/-- **Every dump with such a chunk fails at the newest of them.**  The header and all newer chunks
are read, but for what the read that fails had gathered. -/
theorem failure (C : Codec) (vitals : Vitals) (chunks : List Chunk) (readSize : ℕ)
    (sizes : ℕ → ℕ) (hheader : (Header.describe vitals chunks).Fits C)
    (hunfit : ∃ c ∈ chunks, ¬ c.Fits C) :
    ∃ older bad newer e groups lost,
      chunks = older ++ bad :: newer ∧ ¬ bad.Fits C ∧ (∀ c ∈ newer, c.Fits C) ∧
        chunkFrame C bad = .error e ∧
        Failure C (.ofChunks vitals chunks readSize) sizes
          (snapshotFrames C (.describe vitals chunks) newer) groups lost e ∧
        (sizes groups.length ≤ 1 → lost = []) := by
  obtain ⟨older, bad, newer, rfl, hbad, hnewer⟩ := exists_newest_unfit hunfit
  obtain ⟨e, he⟩ := exists_error_of_not_fits hbad
  set w := ofChunks vitals (older ++ bad :: newer) readSize with hw
  have hdoomed : Doomed C w newer.reverse bad older.reverse e :=
    { intact := rfl
      header := hheader
      pending := by simp [hw, ofChunks]
      fits := by simpa using hnewer
      unfit := he }
  obtain ⟨groups, lost, hfailure⟩ := exists_failure hdoomed sizes
  refine ⟨older, bad, newer, e, groups, lost, rfl, hbad, hnewer, he, hfailure, fun hone => ?_⟩
  -- no frame is empty
  have hempty : lost.flatten = [] := by
    have hshort := hfailure.short
    rw [max_eq_right hone, Nat.lt_one_iff] at hshort
    exact List.length_eq_zero_iff.mp hshort
  rw [List.flatten_eq_nil_iff] at hempty
  refine List.eq_nil_iff_forall_not_mem.mpr fun frame hframe => ?_
  have hmem : frame ∈ snapshotFrames C w.header newer := by
    have hall := List.mem_append_right groups.flatten hframe
    rwa [← hfailure.whole] at hall
  rcases List.mem_cons.mp hmem with rfl | hmem
  · exact headerBytes_ne_nil C w.header (hempty _ hframe)
  · obtain ⟨c, -, rfl⟩ := List.mem_map.mp hmem
    exact chunkBytes_ne_nil C c (hempty _ hframe)

/-- A chunk with a byte too many for a frame. -/
def oversized : Chunk := ⟨0, 1000, List.replicate 65536 0, none⟩

/-- That chunk, and a newer one that has only one byte. -/
def overloaded : List Chunk := [oversized, ⟨1000, 1000, [1], none⟩]

lemma oversized_not_fits : ¬ oversized.Fits C := by
  intro h
  have hpayload : (List.replicate 65536 (0 : UInt8)).length ≤ 65535 := h.payload
  rw [List.length_replicate] at hpayload
  omega

lemma exists_unfit_overloaded : ∃ c ∈ overloaded, ¬ c.Fits C :=
  ⟨oversized, List.mem_cons_self, oversized_not_fits⟩

/-- The header is read by itself, and then the newer chunk is lost. -/
theorem failure_overloaded :
    ∃ e groups lost,
      Failure .json (.ofChunks { streamKey := "a", chunkDuration := 1 } overloaded 65536)
        (fun i => if i = 0 then 1 else 65536)
        (snapshotFrames .json (.describe { streamKey := "a", chunkDuration := 1 } overloaded)
          [⟨1000, 1000, [1], none⟩]) groups lost e := by
  obtain ⟨older, bad, newer, e, groups, lost, hchunks, hbad, hnewer, -, hfailure, -⟩ :=
    failure .json { streamKey := "a", chunkDuration := 1 } overloaded 65536
      (fun i => if i = 0 then 1 else 65536) (by decide +kernel) exists_unfit_overloaded
  obtain rfl : newer = [⟨1000, 1000, [1], none⟩] := by
    rcases older with _ | ⟨first, _ | ⟨second, rest⟩⟩
    · exact (List.cons.inj hchunks).2.symm
    · obtain ⟨rfl, -⟩ := List.cons.inj (List.cons.inj hchunks).2
      exact absurd (by decide +kernel) hbad
    · have hlength := congrArg List.length hchunks
      simp [overloaded] at hlength
  exact ⟨e, groups, lost, hfailure⟩

/-- **Not everything in front of the failure is delivered**: one read that is large enough to come
to it fails at once, and the header and the newer chunk are lost. -/
theorem not_forall_delivered :
    ¬ ∀ (vitals : Vitals) (chunks : List Chunk) (readSize : ℕ) (sizes : ℕ → ℕ),
      (Header.describe vitals chunks).Fits .json → (∃ c ∈ chunks, ¬ c.Fits .json) →
      ∃ older bad newer pieces e, chunks = older ++ bad :: newer ∧ ¬ bad.Fits .json ∧
        (∀ c ∈ newer, c.Fits .json) ∧
        Stops .json (.ofChunks vitals chunks readSize) sizes pieces e ∧
        pieces.flatten = (snapshotFrames .json (.describe vitals chunks) newer).flatten := by
  intro h
  obtain ⟨older, bad, newer, pieces, e, -, -, -, hstops, hpieces⟩ :=
    h { streamKey := "a", chunkDuration := 1 } overloaded 65536 (fun _ => 65536)
      (by decide +kernel) exists_unfit_overloaded
  set w := ofChunks { streamKey := "a", chunkDuration := 1 } overloaded 65536 with hw
  obtain ⟨e', he'⟩ := exists_error_of_not_fits (C := .json) oversized_not_fits
  have hdoomed : Doomed .json w [⟨1000, 1000, [1], none⟩] oversized [] e' :=
    ⟨rfl, by decide +kernel, rfl, by decide +kernel, he'⟩
  obtain ⟨groups, lost, hfailure⟩ := exists_failure hdoomed fun _ => 65536
  -- all that there is in front of the failure is less than one read
  have hgroups : groups = [] := by
    by_contra hne
    obtain ⟨group, rest, rfl⟩ := List.exists_cons_of_ne_nil hne
    have hreached := (hfailure.full 0 group rfl).reached
    have hlength : (w.ahead .json [⟨1000, 1000, [1], none⟩]).flatten.length < 65536 := by
      decide +kernel
    rw [hfailure.whole, List.flatten_cons, List.append_assoc, List.flatten_append,
      List.length_append] at hlength
    omega
  have hnone : pieces = [] := by
    by_contra hne
    have hlength : 0 ≠ pieces.length := fun hzero => hne (List.length_eq_zero_iff.mp hzero.symm)
    have hfirst := hfailure.stops 0
    rw [hstops 0, if_neg hlength, hgroups] at hfirst
    cases hfirst
  rw [hnone, snapshotFrames, List.flatten_cons] at hpieces
  exact headerBytes_ne_nil _ _ (List.append_eq_nil_iff.mp hpieces.symm).1

end RewindRelay.DumpWriter
