import RewindRelay.Dump.Document
import RewindRelay.Proofs.Stream.Preload
/-!
# What a preload leaves behind

A preload can be given any bytes, and its transport can end in any way.  The frames that are there
as a whole, up to the first damage, decide what becomes of the stream: it takes over the header and
the chunks behind it, or nothing if there is no header or its vitals are not usable.

* `Ending`, `Stream.preloadUntil` — a preload, and how its transport ends.
* `Stream.TakenOver` — what a preload takes over from the frames.
* `Stream.preloadUntil_of_nothing`, `Stream.preloadUntil_of_refused`,
  `Stream.preloadUntil_of_accepted` — the three ways that a preload can go.
* `Stream.preloadUntil_restores` — **what a preload leaves behind.**
-/

namespace RewindRelay

variable {C : Codec}

/-! ## Endings -/

/-- How the transport of a preload ends. -/
inductive Ending
  | closed
  | failed (reason : String)
  /-- The preload is dropped between two pieces. -/
  | dropped

/-- A preload of the pieces, with nothing in between.  One that is dropped gives no summary, unless
it was over by then. -/
def Stream.preloadUntil (C : Codec) (s : Stream) (pieces : List Bytes) :
    Ending → Option Summary × Stream
  | .closed => (s.preload C (pieces.map .bytes)).map some id
  | .failed reason => (s.preload C (pieces.map .bytes ++ [.failed reason])).map some id
  | .dropped =>
    match s.beginPreload.transportAll C {} (pieces.map .bytes) with
    | (.ended summary, s') => (some summary, s')
    | (.starved _, s') | (.applied _, s') => (none, s'.abandon)

/-- The summary of a preload that has applied some frames and found this behind them. -/
def Ending.summary? (ending : Ending) (summary : Summary) :
    Except FrameError Unit × Loader → Option Summary
  | (.error e, _) => some { summary with error := some e.message }
  | (.ok (), loader) =>
    match ending, loader.finish with
    | .closed, .ok () => some { summary with error := none }
    | .closed, .error e => some { summary with error := some e.message }
    | .failed reason, _ => some { summary with error := some reason }
    | .dropped, _ => none

/-- The frames in an input that is there at once, and what is behind them. -/
def Loader.found (C : Codec) (input : Bytes) : List Frame × Except FrameError Unit × Loader :=
  drain C (feed {} input)

open Loader (Contents Settled found)

namespace Stream

variable {s s' : Stream} {pieces : List Bytes} {ending : Ending} {summary : Summary}

lemma preloadUntil_of_ended
    (h : s.beginPreload.absorb C { loader := Loader.feed {} pieces.flatten } =
      (.ended summary, s')) :
    s.preloadUntil C pieces ending = (some summary, s') := by
  have hsettled : Settled C ({} : Preload).loader := rfl
  have hpieces := transportAll_pieces s.beginPreload hsettled pieces
  rw [h] at hpieces
  cases ending with
  | closed =>
      simp only [preloadUntil, preload, transportAll_append, hpieces]
      rfl
  | failed reason =>
      simp only [preloadUntil, preload, List.append_assoc, transportAll_append, hpieces]
      rfl
  | dropped => simp only [preloadUntil, hpieces]

lemma preloadUntil_of_halt {outcome : Except FrameError Unit × Loader}
    (h : s.beginPreload.absorb C { loader := Loader.feed {} pieces.flatten } =
      s'.halt summary outcome) :
    s.preloadUntil C pieces ending = (ending.summary? summary outcome, s'.abandon) := by
  have hsettled : Settled C ({} : Preload).loader := rfl
  have hpieces := transportAll_pieces s.beginPreload hsettled pieces
  obtain ⟨e | _, loader⟩ := outcome
  · exact preloadUntil_of_ended h
  · rw [h] at hpieces
    cases ending with
    | closed =>
        simp only [preloadUntil, preload, transportAll_append, hpieces, halt, Progress.andThen,
          transportAll, transport, Ending.summary?]
        cases loader.finish <;> rfl
    | failed reason =>
        simp only [preloadUntil, preload, List.append_assoc, transportAll_append, hpieces]
        rfl
    | dropped =>
        simp only [preloadUntil, hpieces]
        rfl

lemma preloadUntil_of_applyAll
    (h : s.beginPreload.applyAll {} (found C pieces.flatten).1 = some (summary, s')) :
    s.preloadUntil C pieces ending =
      (ending.summary? summary (found C pieces.flatten).2, s'.abandon) :=
  preloadUntil_of_halt (absorb_of_applyAll h)

end Stream

/-- How a transport ends changes no more than the reason in the summary. -/
lemma Ending.exists_error {ending : Ending} {summary summary' : Summary}
    {outcome : Except FrameError Unit × Loader}
    (h : ending.summary? summary outcome = some summary') :
    ∃ error, summary' = { summary with error } := by
  unfold summary? at h
  split at h
  · cases h
    exact ⟨_, rfl⟩
  · split at h <;> cases h <;> exact ⟨_, rfl⟩

/-- A summary is complete exactly when the transport was closed behind a whole dump. -/
lemma Ending.isComplete_iff {ending : Ending} {summary summary' : Summary}
    {outcome : Except FrameError Unit × Loader}
    (h : ending.summary? summary outcome = some summary') :
    summary'.isComplete = true ↔ ending = .closed ∧ summary.header.isSome = true ∧
      outcome.1 = .ok () ∧ outcome.2.finish = .ok () := by
  obtain ⟨e | _, loader⟩ := outcome
  · cases h
    simp [Summary.isComplete]
  · cases ending with
    | closed =>
        cases hfinish : loader.finish with
        | ok _ =>
            simp only [summary?, hfinish, Option.some.injEq] at h
            subst h
            simp [Summary.isComplete]
        | error e =>
            simp only [summary?, hfinish, Option.some.injEq] at h
            subst h
            simp [Summary.isComplete]
    | failed reason =>
        simp only [summary?, Option.some.injEq] at h
        subst h
        simp [Summary.isComplete]
    | dropped => cases h

lemma decodeAll_eq_ok_iff {bytes : Bytes} {frames : List Frame} :
    decodeAll C bytes = .ok frames ↔ (found C bytes).1 = frames ∧
      (found C bytes).2.1 = .ok () ∧
      (found C bytes).2.2.finish = .ok () := by
  rw [decodeAll, found]
  rcases Loader.drain C (Loader.feed {} bytes) with ⟨frames', e | _, loader⟩
  · simp
  · cases hfinish : loader.finish <;> simp [Except.map, hfinish]

namespace Stream

variable {s : Stream} {pieces : List Bytes} {ending : Ending} {h : Header} {chunks : List Chunk}
  {frames : List Frame}

/-! ## What is taken over -/

/-- What a preload takes over from the frames that are there as a whole. -/
inductive TakenOver : List Frame → Option Header → List Chunk → Prop
  | nothing : TakenOver [] none []
  | refused (h : Header) (chunks : List Chunk) (unusable : h.vitals.isUsable = false) :
    TakenOver (.header h :: chunks.map .chunk) none []
  | accepted (h : Header) (chunks : List Chunk) (usable : h.vitals.isUsable = true) :
    TakenOver (.header h :: chunks.map .chunk) (some h) chunks

/-- What has become of a stream, and of the summary, when so much was taken over. -/
structure Restored (s : Stream) (header : Option Header) (chunks : List Chunk)
    (result : Option Summary × Stream) : Prop where
  /-- The audio is that of a new store that was offered the chunks. -/
  audio : result.2.store.chunks = (Store.filled result.2.store.capacity chunks).2.chunks
  capacity : result.2.store.capacity =
    header.elim s.store.capacity fun h => lengthBound s.windowSeconds (some h.vitals)
  vitals : result.2.vitals = (header.map Header.vitals).or s.vitals
  loading : result.2.loading = false
  header : ∀ summary ∈ result.1, summary.header = header
  applied : ∀ summary ∈ result.1, summary.loaded + summary.skipped = chunks.length

/-! ## Three ways

Without a header nothing happens.  Vitals that are not usable end the preload.  Otherwise the header
is taken over, and the chunks behind it are offered to the store.
-/

lemma preloadUntil_of_nothing (hframes : (found C pieces.flatten).1 = []) :
    s.preloadUntil C pieces ending =
      (ending.summary? {} (found C pieces.flatten).2, s.beginPreload.abandon) := by
  refine preloadUntil_of_applyAll ?_
  rw [hframes]
  rfl

lemma preloadUntil_of_refused
    (hframes : (found C pieces.flatten).1 = .header h :: frames)
    (hu : h.vitals.isUsable = false) :
    s.preloadUntil C pieces ending =
      (some
        { error := some
            (StreamError.invalidVitals h.vitals.streamKey h.vitals.chunkDuration).message },
        s.beginPreload.abandon) := by
  have hrefused : s.beginPreload.applyFrame {} (.header h) =
      (.error (.invalidVitals h.vitals.streamKey h.vitals.chunkDuration), s.beginPreload) := by
    simp [applyFrame, Stream.updateVitals, hu]
  rcases hnext : (Loader.feed {} pieces.flatten).nextFrame C with ⟨e | _ | f, loader⟩
  · rw [found, Loader.drain_of_error hnext] at hframes
    cases hframes
  · rw [found, Loader.drain_of_settled (by rw [Settled, hnext])] at hframes
    cases hframes
  · rw [found, Loader.drain_of_frame hnext] at hframes
    cases hframes
    exact preloadUntil_of_ended (absorb_of_refused hnext hrefused)

lemma preloadUntil_of_accepted (alive : s.destroyed = false)
    (hframes : (found C pieces.flatten).1 = .header h :: chunks.map .chunk)
    (hu : h.vitals.isUsable = true) (ending : Ending) :
    ∃ s' : Stream, s.preloadUntil C pieces ending = (ending.summary?
        ((Store.filled (lengthBound s.windowSeconds (some h.vitals)) chunks).1.foldl
          Summary.count { header := some h })
        (found C pieces.flatten).2, s'.abandon) ∧
      s'.store.chunks =
        (Store.filled (lengthBound s.windowSeconds (some h.vitals)) chunks).2.chunks ∧
      s'.store.capacity = lengthBound s.windowSeconds (some h.vitals) ∧
      s'.vitals = some h.vitals := by
  obtain ⟨hempty, hcapacity, hdestroyed, hvitals⟩ := s.updateVitals_beginPreload hu
  set t := (s.beginPreload.updateVitals h.vitals).2 with ht
  -- the store still has its old counters, but they play no part in what becomes of a chunk
  obtain ⟨houtcomes, haudio⟩ := Store.serveAll_of_chunks_nil hempty (chunks.map .insert)
  rw [hcapacity] at houtcomes haudio
  refine ⟨{ t with store := (serveAll Store.serve t.store (chunks.map .insert)).2 },
    preloadUntil_of_applyAll ?_, haudio,
    (Store.capacity_serveAll_insert _ _).trans hcapacity, hvitals⟩
  rw [hframes, applyAll, applyFrame_header hu, ← ht, Store.filled, ← houtcomes]
  exact applyAll_chunks (hdestroyed.trans alive) _ chunks

lemma frames_cases (C : Codec) (bytes : Bytes) :
    (found C bytes).1 = [] ∨ ∃ (h : Header) (chunks : List Chunk),
      (found C bytes).1 = .header h :: chunks.map .chunk := by
  obtain ⟨rest, hcontents⟩ := Loader.contents_drain (C := C) (Loader.feed {} bytes)
  exact hcontents.spelled.dump_cases

/-! ## What is left -/

/-- A stream that took nothing over has lost its audio and is as it was in all else. -/
lemma restored_nothing {summary? : Option Summary}
    (h : ∀ summary ∈ summary?, ∃ error, summary = { error }) :
    Restored s none [] (summary?, s.beginPreload.abandon) where
  audio := rfl
  capacity := rfl
  vitals := rfl
  loading := rfl
  header summary hsummary := by
    obtain ⟨error, rfl⟩ := h summary hsummary
    rfl
  applied summary hsummary := by
    obtain ⟨error, rfl⟩ := h summary hsummary
    rfl

lemma exists_restored (C : Codec) (alive : s.destroyed = false) (pieces : List Bytes)
    (ending : Ending) :
    ∃ header chunks, TakenOver (found C pieces.flatten).1 header chunks ∧
      Restored s header chunks (s.preloadUntil C pieces ending) := by
  rcases frames_cases C pieces.flatten with hnil | ⟨h, chunks, hframes⟩
  · rw [preloadUntil_of_nothing hnil, hnil]
    exact ⟨none, [], .nothing, restored_nothing fun summary hsummary =>
      Ending.exists_error hsummary⟩
  · cases hu : h.vitals.isUsable with
    | false =>
        rw [preloadUntil_of_refused hframes hu, hframes]
        refine ⟨none, [], .refused h chunks hu, restored_nothing fun summary hsummary => ?_⟩
        cases hsummary
        exact ⟨_, rfl⟩
    | true =>
        obtain ⟨s', heq, haudio, hcapacity, hvitals⟩ :=
          preloadUntil_of_accepted alive hframes hu ending
        rw [heq, hframes]
        refine ⟨some h, chunks, .accepted h chunks hu, ?_⟩
        have hcount := Store.length_serveAll_insert
          (.empty (lengthBound s.windowSeconds (some h.vitals))) chunks
        exact
          { audio := by simp only [abandon, haudio, hcapacity]
            capacity := hcapacity
            vitals := hvitals
            loading := rfl
            header := fun summary hsummary => by
              obtain ⟨error, rfl⟩ := Ending.exists_error hsummary
              simp only [Summary.foldl_count]
            applied := fun summary hsummary => by
              obtain ⟨error, rfl⟩ := Ending.exists_error hsummary
              simp only [Summary.foldl_count, Nat.zero_add]
              rw [← hcount, Store.filled, List.length_eq_countP_add_countP InsertOutcome.isStored]
              simp }

/-- A preload is complete exactly when the transport was closed behind a whole dump with usable
vitals. -/
lemma isComplete_preloadUntil_iff (alive : s.destroyed = false) {summary : Summary}
    (hsummary : (s.preloadUntil C pieces ending).1 = some summary) :
    summary.isComplete = true ↔ ending = .closed ∧ ∃ h frames,
      decodeAll C pieces.flatten = .ok (.header h :: frames) ∧ h.vitals.isUsable = true := by
  simp only [decodeAll_eq_ok_iff]
  rcases frames_cases C pieces.flatten with hnil | ⟨h, chunks, hframes⟩
  · rw [preloadUntil_of_nothing hnil] at hsummary
    rw [Ending.isComplete_iff hsummary, hnil]
    simp
  · cases hu : h.vitals.isUsable with
    | false =>
        rw [preloadUntil_of_refused hframes hu] at hsummary
        cases hsummary
        rw [hframes]
        simp [Summary.isComplete, hu]
    | true =>
        obtain ⟨s', heq, -, -, -⟩ := preloadUntil_of_accepted alive hframes hu ending
        rw [heq] at hsummary
        rw [Ending.isComplete_iff hsummary, hframes]
        simp [Summary.foldl_count, hu]

/-- Neither the pieces nor the audio that was there before make a difference. -/
lemma preloadUntil_congr {s' : Stream} {pieces' : List Bytes} (alive : s.destroyed = false)
    (alive' : s'.destroyed = false) (hwindow : s'.windowSeconds = s.windowSeconds)
    (hvitals : s'.vitals = s.vitals) (hpieces : pieces'.flatten = pieces.flatten) :
    (s'.preloadUntil C pieces' ending).1 = (s.preloadUntil C pieces ending).1 ∧
      (s'.preloadUntil C pieces' ending).2.store.chunks =
        (s.preloadUntil C pieces ending).2.store.chunks ∧
      (s'.preloadUntil C pieces' ending).2.vitals = (s.preloadUntil C pieces ending).2.vitals := by
  rcases frames_cases C pieces.flatten with hnil | ⟨h, chunks, hframes⟩
  · rw [preloadUntil_of_nothing hnil, preloadUntil_of_nothing (hpieces ▸ hnil), hpieces]
    exact ⟨rfl, rfl, hvitals⟩
  · cases hu : h.vitals.isUsable with
    | false =>
        rw [preloadUntil_of_refused hframes hu, preloadUntil_of_refused (hpieces ▸ hframes) hu]
        exact ⟨rfl, rfl, hvitals⟩
    | true =>
        obtain ⟨t, heq, haudio, -, hv⟩ :=
          preloadUntil_of_accepted alive hframes hu ending
        obtain ⟨t', heq', haudio', -, hv'⟩ :=
          preloadUntil_of_accepted alive' (hpieces ▸ hframes) hu ending
        rw [heq, heq', hpieces, hwindow]
        rw [hwindow] at haudio'
        exact ⟨rfl, haudio'.trans haudio.symm, hv'.trans hv.symm⟩

/-- What is true of every preload of these pieces whose transport ends in this way. -/
structure Restores (C : Codec) (s : Stream) (pieces : List Bytes) (ending : Ending) : Prop where
  /-- The stream is what the frames make of it that are there as a whole. -/
  restored : ∃ frames rest header chunks, Contents C .header pieces.flatten frames rest ∧
    TakenOver frames header chunks ∧ Restored s header chunks (s.preloadUntil C pieces ending)
  summarised : ending ≠ .dropped → (s.preloadUntil C pieces ending).1.isSome = true
  complete : ∀ summary ∈ (s.preloadUntil C pieces ending).1, summary.isComplete = true ↔
    ending = .closed ∧ ∃ h frames, decodeAll C pieces.flatten = .ok (.header h :: frames) ∧
      h.vitals.isUsable = true
  /-- Neither the pieces nor the audio that was there before make a difference. -/
  independent : ∀ (s' : Stream) (pieces' : List Bytes), s'.destroyed = false →
    s'.windowSeconds = s.windowSeconds → s'.vitals = s.vitals → pieces'.flatten = pieces.flatten →
      (s'.preloadUntil C pieces' ending).1 = (s.preloadUntil C pieces ending).1 ∧
      (s'.preloadUntil C pieces' ending).2.store.chunks =
        (s.preloadUntil C pieces ending).2.store.chunks ∧
      (s'.preloadUntil C pieces' ending).2.vitals = (s.preloadUntil C pieces ending).2.vitals

/-- **What a preload leaves behind.**  Whatever bytes arrive, and however the transport ends, the
frames that are there as a whole decide what becomes of a stream that is not destroyed. -/
theorem preloadUntil_restores (C : Codec) {s : Stream} (alive : s.destroyed = false)
    (pieces : List Bytes) (ending : Ending) : s.Restores C pieces ending where
  restored := by
    obtain ⟨rest, hcontents⟩ := Loader.contents_drain (C := C) (Loader.feed {} pieces.flatten)
    obtain ⟨header, chunks, htaken, hrestored⟩ := exists_restored C alive pieces ending
    exact ⟨_, rest, header, chunks, hcontents, htaken, hrestored⟩
  summarised hending := by
    cases ending with
    | closed => rfl
    | failed reason => rfl
    | dropped => exact absurd rfl hending
  complete summary hsummary := isComplete_preloadUntil_iff alive hsummary
  independent s' pieces' alive' hwindow hvitals hpieces :=
    preloadUntil_congr alive alive' hwindow hvitals hpieces

/-- A dump that breaks off in its second chunk, cut inside the length of its header. -/
def torn : List Bytes :=
  let header := headerBytes .json (.describe { streamKey := "a", chunkDuration := 1 } [])
  [header.take 3, header.drop 3, [], chunkBytes .json ⟨1000, 1000, [1, 2], none⟩,
    (chunkBytes .json ⟨0, 1000, [3], none⟩).take 20]

/-- One chunk has arrived before the transport fails. -/
theorem preloadUntil_torn :
    (new "main" 10 65536).destroyed = false ∧
      (new "main" 10 65536).Restores .json torn (.failed "reset") ∧
      ((new "main" 10 65536).preloadUntil .json torn (.failed "reset")).2.store.length = 1 :=
  ⟨rfl, preloadUntil_restores .json rfl torn (.failed "reset"), by decide +kernel⟩

end Stream

end RewindRelay
