import RewindRelay.Proofs.Dump.Frame
import RewindRelay.Proofs.Store.Catalog
import RewindRelay.Proofs.Stream.Sound
/-!
# Preloads and the pieces they come in

A preload applies a frame as soon as it is there as a whole.  What the loader decides on a part of
the input stands when the rest arrives, so a preload that takes its input in pieces does what it
would do if it had taken all of it at once, and that is to apply the frames that are drained.

* `Stream.applyAll` — frames, applied one after the other.
* `Stream.absorb`, `Stream.absorbInduction` — a preload applies all frames that have arrived.
* `Stream.transportAll_pieces` — **how the input is cut makes no difference.**
* `Stream.absorb_of_applyAll` — **the frames that are applied are those that are drained.**
* `Stream.applyAll_chunks` — chunk frames are requests to the store.
* `Stream.preload_of_wire` — a preload of a whole dump.
-/

namespace RewindRelay

open Loader (Wire Settled drain)

variable {C : Codec}

lemma Summary.foldl_count (summary : Summary) (outcomes : List InsertOutcome) :
    outcomes.foldl Summary.count summary =
      { summary with
        loaded := summary.loaded + outcomes.countP InsertOutcome.isStored
        skipped := summary.skipped + outcomes.countP fun o => !o.isStored } := by
  induction outcomes generalizing summary with
  | nil => rfl
  | cons outcome rest ih =>
      rw [List.foldl_cons, ih, Summary.count]
      cases ho : outcome.isStored <;> simp [ho] <;> omega

namespace Stream

/-- Frames applied one after the other, none of them refused. -/
def applyAll (s : Stream) (summary : Summary) : List Frame → Option (Summary × Stream)
  | [] => some (summary, s)
  | f :: frames =>
    match s.applyFrame summary f with
    | (.ok summary', s') => applyAll s' summary' frames
    | (.error _, _) => none

/-- Applies every frame that has arrived as a whole. -/
def absorb (C : Codec) (s : Stream) (p : Preload) : Progress × Stream :=
  s.advanceUpTo C (p.loader.buffered + 1) p

/-- What is done after that, unless the preload is over. -/
def Progress.andThen : Progress × Stream → (Stream → Preload → Progress × Stream) →
    Progress × Stream
  | (.ended summary, s), _ => (.ended summary, s)
  | (.starved p, s), next | (.applied p, s), next => next s p

variable {s s' : Stream} {p : Preload} {loader : Loader}

/-! ## One frame after another -/

/-- A preload applies one frame after another until no whole one is left, or one is damaged or
refused. -/
@[elab_as_elim]
theorem absorbInduction {motive : Stream → Preload → Prop}
    (starved : ∀ s p, Settled C p.loader → motive s p)
    (damaged : ∀ s p e loader, p.loader.nextFrame C = (.error e, loader) → motive s p)
    (refused : ∀ s p f loader e s', p.loader.nextFrame C = (.ok (some f), loader) →
      s.applyFrame p.summary f = (.error e, s') → motive s p)
    (applied : ∀ s p f loader summary s', p.loader.nextFrame C = (.ok (some f), loader) →
      s.applyFrame p.summary f = (.ok summary, s') → motive s' ⟨loader, summary⟩ → motive s p)
    (s : Stream) (p : Preload) : motive s p := by
  obtain ⟨loader, summary⟩ := p
  induction loader using Loader.drainInduction (C := C) generalizing s summary with
  | settled l hsettled => exact starved s ⟨l, summary⟩ hsettled
  | failed l l' e hnext => exact damaged s ⟨l, summary⟩ e l' hnext
  | frame l l' f hnext ih =>
      rcases happly : s.applyFrame summary f with ⟨e | summary', s'⟩
      · exact refused s ⟨l, summary⟩ f l' e s' hnext happly
      · exact applied s ⟨l, summary⟩ f l' summary' s' hnext happly (ih s' summary')

lemma advanceUpTo_of_applied {f : Frame} {summary : Summary}
    (h : p.loader.nextFrame C = (.ok (some f), loader))
    (happly : s.applyFrame p.summary f = (.ok summary, s')) (n : ℕ) :
    s.advanceUpTo C (n + 1) p = s'.advanceUpTo C n ⟨loader, summary⟩ := by
  rw [advanceUpTo, advance, h]
  simp only [happly]

/-- A limit above the number of bytes is never reached. -/
lemma advanceUpTo_succ {n : ℕ} (h : p.loader.buffered ≤ n) :
    s.advanceUpTo C (n + 1) p = s.absorb C p := by
  induction s, p using absorbInduction (C := C) generalizing n with
  | starved s p hsettled => simp only [absorb, advanceUpTo, advance, hsettled.nextFrame_eq]
  | damaged s p e loader hnext => simp only [absorb, advanceUpTo, advance, hnext, endPreload]
  | refused s p f loader e s' hnext happly =>
      simp only [absorb, advanceUpTo, advance, hnext, happly, endPreload]
  | applied s p f loader summary s' hnext happly ih =>
      have hlt := Loader.buffered_lt_of_nextFrame hnext
      obtain ⟨k, hk⟩ := Nat.exists_eq_add_one.mpr (Nat.zero_lt_of_lt hlt)
      obtain ⟨m, rfl⟩ := Nat.exists_eq_add_one.mpr (Nat.lt_of_lt_of_le (hk ▸ k.succ_pos) h)
      rw [absorb, hk, advanceUpTo_of_applied hnext happly, advanceUpTo_of_applied hnext happly,
        ih (show loader.buffered ≤ m by omega), ih (show loader.buffered ≤ k by omega)]

lemma absorb_of_settled (h : Settled C p.loader) : s.absorb C p = (.starved p, s) := by
  simp only [absorb, advanceUpTo, advance, h.nextFrame_eq]

lemma absorb_of_damaged {e : FrameError} (h : p.loader.nextFrame C = (.error e, loader)) :
    s.absorb C p = s.endPreload p.summary (some e.message) := by
  simp only [absorb, advanceUpTo, advance, h, endPreload]

lemma absorb_of_refused {f : Frame} {e : StreamError}
    (h : p.loader.nextFrame C = (.ok (some f), loader))
    (happly : s.applyFrame p.summary f = (.error e, s')) :
    s.absorb C p = s'.endPreload p.summary (some e.message) := by
  simp only [absorb, advanceUpTo, advance, h, happly, endPreload]

lemma absorb_of_applied {f : Frame} {summary : Summary}
    (h : p.loader.nextFrame C = (.ok (some f), loader))
    (happly : s.applyFrame p.summary f = (.ok summary, s')) :
    s.absorb C p = s'.absorb C ⟨loader, summary⟩ := by
  have hlt := Loader.buffered_lt_of_nextFrame h
  obtain ⟨k, hk⟩ := Nat.exists_eq_add_one.mpr (Nat.zero_lt_of_lt hlt)
  rw [absorb, hk, advanceUpTo_of_applied h happly]
  exact advanceUpTo_succ (show loader.buffered ≤ k by omega)

/-- A preload that has absorbed its input waits for more, or is over. -/
lemma absorb_cases (C : Codec) (s : Stream) (p : Preload) :
    (∃ p' s', s.absorb C p = (.starved p', s') ∧ Settled C p'.loader) ∨
      ∃ summary s', s.absorb C p = (.ended summary, s') := by
  induction s, p using absorbInduction (C := C) with
  | starved s p hsettled => exact Or.inl ⟨p, s, absorb_of_settled hsettled, hsettled⟩
  | damaged s p e loader hnext => exact Or.inr ⟨_, _, absorb_of_damaged hnext⟩
  | refused s p f loader e s' hnext happly => exact Or.inr ⟨_, _, absorb_of_refused hnext happly⟩
  | applied s p f loader summary s' hnext happly ih => rwa [absorb_of_applied hnext happly]

/-! ## Pieces -/

/-- What was absorbed before the rest arrived is what would be absorbed first if it had arrived. -/
lemma absorb_feed (s : Stream) (p : Preload) (more : Bytes) :
    s.absorb C { p with loader := p.loader.feed more } =
      Progress.andThen (s.absorb C p) fun s' p' =>
        s'.absorb C { p' with loader := p'.loader.feed more } := by
  -- only a loader that waits can decide otherwise once the rest has arrived
  induction s, p using absorbInduction (C := C) with
  | starved s p hsettled =>
      rw [absorb_of_settled hsettled]
      rfl
  | damaged s p e loader hnext =>
      have hmore := Loader.nextFrame_feed_of_eq hnext (by simp) more
      rw [absorb_of_damaged hnext]
      exact absorb_of_damaged hmore
  | refused s p f loader e s' hnext happly =>
      have hmore := Loader.nextFrame_feed_of_eq hnext (by simp) more
      rw [absorb_of_refused hnext happly]
      exact absorb_of_refused hmore happly
  | applied s p f loader summary s' hnext happly ih =>
      have hmore := Loader.nextFrame_feed_of_eq hnext (by simp) more
      rw [absorb_of_applied hnext happly, ← ih]
      exact absorb_of_applied hmore happly

lemma transportAll_cons (event : TransportEvent) (rest : List TransportEvent) :
    s.transportAll C p (event :: rest) =
      Progress.andThen (s.transport C p event) fun s' p' => s'.transportAll C p' rest := by
  rw [transportAll]
  rcases s.transport C p event with ⟨p' | p' | summary, s'⟩ <;> rfl

lemma transportAll_append (first second : List TransportEvent) :
    s.transportAll C p (first ++ second) =
      Progress.andThen (s.transportAll C p first) fun s' p' => s'.transportAll C p' second := by
  induction first generalizing s p with
  | nil => rfl
  | cons event rest ih =>
      rw [List.cons_append, transportAll_cons, transportAll_cons]
      rcases s.transport C p event with ⟨p' | p' | summary, s'⟩
      · exact ih
      · exact ih
      · rfl

/-- **How the input is cut makes no difference.**  A preload that takes all pieces has absorbed
what it would have absorbed at once. -/
theorem transportAll_pieces (s : Stream) (h : Settled C p.loader) (pieces : List Bytes) :
    s.transportAll C p (pieces.map .bytes) =
      s.absorb C { p with loader := p.loader.feed pieces.flatten } := by
  induction pieces generalizing s p with
  | nil =>
      rw [List.flatten_nil, Loader.feed_nil, absorb_of_settled h]
      rfl
  | cons piece pieces ih =>
      rw [List.map_cons, transportAll_cons, List.flatten_cons, ← Loader.feed_feed]
      have hpiece : s.transport C p (.bytes piece) =
          s.absorb C { p with loader := p.loader.feed piece } := rfl
      have hmore := absorb_feed (C := C) s { p with loader := p.loader.feed piece } pieces.flatten
      simp only at hmore
      rw [hpiece, hmore]
      rcases absorb_cases C s { p with loader := p.loader.feed piece } with
        ⟨p', s', heq, hsettled⟩ | ⟨summary, s', heq⟩
      · rw [heq]
        exact ih s' hsettled
      · rw [heq]
        rfl

/-! ## Frames -/

/-- A preload that has applied some frames, and found this behind them. -/
def halt (s : Stream) (summary : Summary) : Except FrameError Unit × Loader → Progress × Stream
  | (.ok (), loader) => (.starved { loader, summary }, s)
  | (.error e, _) => s.endPreload summary (some e.message)

/-- **The frames that are applied are those that are drained.** -/
theorem absorb_of_applyAll {summary : Summary}
    (h : s.applyAll p.summary (drain C p.loader).1 = some (summary, s')) :
    s.absorb C p = s'.halt summary (drain C p.loader).2 := by
  induction s, p using absorbInduction (C := C) with
  | starved s p hsettled =>
      rw [Loader.drain_of_settled hsettled] at h ⊢
      cases h
      exact absorb_of_settled hsettled
  | damaged s p e loader hnext =>
      rw [Loader.drain_of_error hnext] at h ⊢
      cases h
      exact absorb_of_damaged hnext
  | refused s p f loader e s₁ hnext happly =>
      rw [Loader.drain_of_frame hnext] at h
      simp only [applyAll, happly] at h
      cases h
  | applied s p f loader summary₁ s₁ hnext happly ih =>
      rw [Loader.drain_of_frame hnext] at h ⊢
      rw [absorb_of_applied hnext happly]
      simp only [applyAll, happly] at h
      exact ih h

/-- **Chunk frames are requests to the store.** -/
theorem applyAll_chunks (alive : s.destroyed = false) (summary : Summary) (chunks : List Chunk) :
    s.applyAll summary (chunks.map .chunk) =
      some ((serveAll Store.serve s.store (chunks.map .insert)).1.foldl Summary.count summary,
        { s with store := (serveAll Store.serve s.store (chunks.map .insert)).2 }) := by
  induction chunks generalizing s summary with
  | nil => rfl
  | cons c chunks ih =>
      have hnext := ih (s := { s with store := (s.store.insert c).2 }) alive
        (summary.count (s.store.placement c.ts))
      rw [List.map_cons, applyAll, applyFrame_chunk alive]
      simp only [hnext, List.map_cons, serveAll, Store.serve, Store.insert_fst, Option.toList_some,
        List.singleton_append, List.foldl_cons]

lemma updateVitals_beginPreload (s : Stream) {v : Vitals} (hu : v.isUsable = true) :
    ((s.beginPreload).updateVitals v).2.store.chunks = [] ∧
      ((s.beginPreload).updateVitals v).2.store.capacity = lengthBound s.windowSeconds (some v) ∧
      ((s.beginPreload).updateVitals v).2.destroyed = s.destroyed ∧
      ((s.beginPreload).updateVitals v).2.vitals = some v := by
  rcases updateVitals_cases s.beginPreload v with ⟨hnot, -⟩ | ⟨-, -, heq⟩ | ⟨-, -, heq⟩
  · rw [hu] at hnot
    cases hnot
  · rw [heq]
    exact ⟨List.rtake_nil _, rfl, rfl, rfl⟩
  · rw [heq]
    exact ⟨List.rtake_nil _, rfl, rfl, rfl⟩

/-! ## A whole dump -/

/-- **A preload of a whole dump.**  Whatever pieces it is cut into, its frames are applied, one
after the other, and the preload ends without an error. -/
theorem preload_of_wire {bytes : Bytes} {frames : List Frame} {result : Summary × Stream}
    (hwire : Wire C .header bytes frames)
    (happly : s.beginPreload.applyAll {} frames = some result) {pieces : List Bytes}
    (hpieces : pieces.flatten = bytes) :
    s.preload C (pieces.map .bytes) = ({ result.1 with error := none }, result.2.abandon) := by
  obtain ⟨decoded, hdrain⟩ := hwire.drain_eq 0
  have hfeed : Loader.feed {} bytes = ⟨bytes, .header, 0⟩ := rfl
  have hdrained : s.beginPreload.applyAll {} (drain C (Loader.feed {} bytes)).1 =
      some (result.1, result.2) := by
    rw [hfeed, hdrain]
    exact happly
  have habsorb : s.beginPreload.absorb C { loader := Loader.feed {} bytes } =
      (.starved ⟨⟨[], .chunk, decoded⟩, result.1⟩, result.2) := by
    rw [absorb_of_applyAll hdrained, hfeed, hdrain]
    rfl
  have hsettled : Settled C ({} : Preload).loader := rfl
  rw [preload, transportAll_append, transportAll_pieces _ hsettled, hpieces, habsorb]
  rfl

end Stream

end RewindRelay
