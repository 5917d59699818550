import RewindRelay.Proofs.Broadcast.Run
import RewindRelay.Proofs.Stream.Preload
/-!
# A whole preload is a run

The steps in which a preload shares a stream with others are smaller than those in which it is
written: bytes are taken in by one event and each frame is applied by another.  With nothing in
between the two come to the same.  A preload that waits for bytes has applied all frames that are
there, and as every frame makes the buffer shorter there are never more frames than bytes.

* `Broadcast.beside` — a stream with one more preload, running or over.
* `Broadcast.exists_run_preload` — **a whole preload is a run.**
* `Broadcast.Reachable.preload` — it leads from a reachable state to another.
-/

namespace RewindRelay

variable {C : Codec}

/-! ## Steps of a preload -/

namespace Stream

/-- A preload that goes on from here has nothing left to apply. -/
def Progress.Rests (C : Codec) (progress : Progress) : Prop :=
  ∀ p, progress.preload? = some p → p.isStarved C = true

lemma isStarved_of_settled {p : Preload} (h : Loader.Settled C p.loader) :
    p.isStarved C = true := by
  simp only [Preload.isStarved, h.nextFrame_eq]

/-- What has been absorbed is all that has arrived. -/
lemma rests_absorb (C : Codec) (s : Stream) (p : Preload) : (s.absorb C p).1.Rests C := by
  rcases absorb_cases C s p with ⟨p', s', heq, hsettled⟩ | ⟨summary, s', heq⟩
  · rw [heq]
    intro q hq
    cases hq
    exact isStarved_of_settled hsettled
  · rw [heq]
    intro q hq
    cases hq

/-- A preload is over when the transport is. -/
lemma preload?_transportAll (C : Codec) (s : Stream) (p : Preload) (events : List TransportEvent) :
    (s.transportAll C p (events ++ [.closed])).1.preload? = none := by
  have hclosed : ∀ (s : Stream) (p : Preload),
      (s.transportAll C p [.closed]).1.preload? = none := by
    intro s p
    simp only [transportAll, transport]
    cases p.loader.finish <;> rfl
  rw [transportAll_append]
  rcases s.transportAll C p events with ⟨p' | p' | summary, s'⟩
  · exact hclosed s' p'
  · exact hclosed s' p'
  · rfl

lemma preload_snd (C : Codec) (s : Stream) (events : List TransportEvent) :
    (s.preload C events).2 = (s.beginPreload.transportAll C {} (events ++ [.closed])).2 := by
  have hover := preload?_transportAll C s.beginPreload {} events
  rw [preload]
  split
  · next heq => rw [heq]
  · next heq =>
      rw [heq] at hover
      cases hover
  · next heq =>
      rw [heq] at hover
      cases hover

end Stream

/-! ## Runs -/

namespace Broadcast

variable {b : Broadcast}

/-- A stream with one more preload beside those that are running, or the same after it has
ended. -/
def beside (b : Broadcast) (p? : Option Preload) (s : Stream) : Broadcast where
  stream := s
  running := b.running ++ p?.toList.map fun p => (b.nextPreload, p)
  nextPreload := b.nextPreload + 1

lemma exists_of_mem_settle {id : PreloadId} {p? : Option Preload} {r : PreloadId × Preload}
    (hr : r ∈ b.settle id p?) : ∃ r' ∈ b.running, r'.1 = r.1 := by
  cases p? with
  | some p =>
      obtain ⟨r', hr', rfl⟩ := List.mem_map.mp hr
      refine ⟨r', hr', ?_⟩
      split
      · next heq => exact heq
      · rfl
  | none => exact ⟨r, List.mem_of_mem_filter hr, rfl⟩

/-- The numbers of running preloads have been given out. -/
lemma Reachable.id_lt (h : Reachable C b) : ∀ r ∈ b.running, r.1 < b.nextPreload := by
  induction h with
  | new name windowSeconds readSize => exact List.forall_mem_nil _
  | @step b event _ ih =>
      cases event with
      | operate op => exact ih
      | start =>
          intro r hr
          rcases List.mem_append.mp hr with hr | hr
          · exact Nat.lt_succ_of_lt (ih r hr)
          · rw [List.mem_singleton.mp hr]
            exact Nat.lt_succ_self _
      | preload id a =>
          simp only [Broadcast.step]
          cases hl : b.running.lookup id with
          | none => exact ih
          | some p =>
              intro r hr
              obtain ⟨r', hr', hsame⟩ := exists_of_mem_settle hr
              exact hsame ▸ ih r' hr'

lemma step_beside (hid : ∀ r ∈ b.running, r.1 < b.nextPreload) (p : Preload) (s : Stream)
    (a : PreloadAction) :
    (b.beside (some p) s).step C (.preload b.nextPreload a) =
      b.beside (s.stepPreload C p a).1 (s.stepPreload C p a).2 := by
  have hne : ∀ r ∈ b.running, r.1 ≠ b.nextPreload := fun r hr => Nat.ne_of_lt (hid r hr)
  have hold : b.running.lookup b.nextPreload = none :=
    List.lookup_eq_none_iff.mpr fun r hr => by simpa using (hne r hr).symm
  have hlookup : (b.beside (some p) s).running.lookup b.nextPreload = some p := by
    simp [beside, List.lookup_append, hold]
  have hstream : (b.beside (some p) s).stream = s := rfl
  simp only [step, hlookup, hstream]
  cases (s.stepPreload C p a).1 with
  | some p' =>
      have hmap : b.running.map (fun r => if r.1 = b.nextPreload then (b.nextPreload, p') else r) =
          b.running :=
        (List.map_congr_left fun r hr => if_neg (hne r hr)).trans (List.map_id _)
      simp [beside, settle, hmap]
  | none =>
      have hfilter : b.running.filter (fun r => r.1 ≠ b.nextPreload) = b.running :=
        List.filter_eq_self.mpr fun r hr => by simpa using hne r hr
      simp only [ne_eq, decide_not] at hfilter
      simp [beside, settle, hfilter]

/-- All frames that are there are applied by a run. -/
lemma exists_run_absorb (hid : ∀ r ∈ b.running, r.1 < b.nextPreload) (s : Stream) (p : Preload) :
    ∃ events, (b.beside (some p) s).run C events =
      b.beside (s.absorb C p).1.preload? (s.absorb C p).2 := by
  induction s, p using Stream.absorbInduction (C := C) with
  | starved s p hsettled => exact ⟨[], by rw [Stream.absorb_of_settled hsettled]; rfl⟩
  | damaged s p e loader hnext =>
      refine ⟨[.preload b.nextPreload .advance], ?_⟩
      rw [run, List.foldl_cons, List.foldl_nil, step_beside hid, Stream.absorb_of_damaged hnext]
      simp only [Stream.stepPreload, Stream.advance, hnext]
  | refused s p f loader e s' hnext happly =>
      refine ⟨[.preload b.nextPreload .advance], ?_⟩
      rw [run, List.foldl_cons, List.foldl_nil, step_beside hid,
        Stream.absorb_of_refused hnext happly, Stream.stepPreload_of_refused hnext happly]
      rfl
  | applied s p f loader summary s' hnext happly ih =>
      obtain ⟨events, hrun⟩ := ih
      refine ⟨.preload b.nextPreload .advance :: events, ?_⟩
      rw [run, List.foldl_cons, step_beside hid, Stream.stepPreload_of_applied hnext happly,
        Stream.absorb_of_applied hnext happly]
      exact hrun

/-- What the transport brings is taken in by a run. -/
lemma exists_run_transport (hid : ∀ r ∈ b.running, r.1 < b.nextPreload) (s : Stream)
    {p : Preload} (hp : p.isStarved C = true) (event : TransportEvent) :
    (s.transport C p event).1.Rests C ∧ ∃ events, (b.beside (some p) s).run C events =
      b.beside (s.transport C p event).1.preload? (s.transport C p event).2 := by
  have hstep := step_beside (C := C) hid p s (.transport event)
  simp only [Stream.stepPreload, hp, if_true] at hstep
  cases event with
  | bytes data =>
      obtain ⟨events, hrun⟩ := exists_run_absorb (C := C) hid s
        { p with loader := p.loader.feed data }
      refine ⟨Stream.rests_absorb C s _,
        .preload b.nextPreload (.transport (.bytes data)) :: events, ?_⟩
      rw [run, List.foldl_cons, hstep]
      exact hrun
  | failed reason =>
      exact ⟨fun q hq => (by cases hq), [.preload b.nextPreload (.transport (.failed reason))],
        hstep⟩
  | closed =>
      refine ⟨fun q hq => ?_, [.preload b.nextPreload (.transport .closed)], hstep⟩
      simp only [Stream.transport] at hq
      split at hq <;> cases hq

lemma exists_run_transportAll (hid : ∀ r ∈ b.running, r.1 < b.nextPreload) (s : Stream)
    {p : Preload} (hp : p.isStarved C = true) (events : List TransportEvent) :
    ∃ steps, (b.beside (some p) s).run C steps =
      b.beside (s.transportAll C p events).1.preload? (s.transportAll C p events).2 := by
  induction events generalizing s p with
  | nil => exact ⟨[], rfl⟩
  | cons event rest ih =>
      obtain ⟨hrests, first, hfirst⟩ := exists_run_transport (C := C) (b := b) hid s hp event
      rw [Stream.transportAll]
      rcases heq : s.transport C p event with ⟨p' | p' | summary, s'⟩
      · rw [heq] at hrests hfirst
        obtain ⟨second, hsecond⟩ := ih s' (hrests p' rfl)
        exact ⟨first ++ second, by rw [run_append, hfirst]; exact hsecond⟩
      · rw [heq] at hrests hfirst
        obtain ⟨second, hsecond⟩ := ih s' (hrests p' rfl)
        exact ⟨first ++ second, by rw [run_append, hfirst]; exact hsecond⟩
      · rw [heq] at hfirst
        exact ⟨first, hfirst⟩

/-- **A whole preload is a run.**  The other preloads are as before. -/
theorem exists_run_preload (h : Reachable C b) (events : List TransportEvent) :
    ∃ steps, b.run C steps =
      { b with stream := (b.stream.preload C events).2, nextPreload := b.nextPreload + 1 } := by
  have hstarved : ({} : Preload).isStarved C = true := rfl
  have hstart : b.step C .start = b.beside (some {}) b.stream.beginPreload := rfl
  obtain ⟨steps, hrun⟩ := exists_run_transportAll (b := b) h.id_lt b.stream.beginPreload hstarved
    (events ++ [.closed])
  refine ⟨.start :: steps, ?_⟩
  rw [Broadcast.run, List.foldl_cons, hstart, ← Broadcast.run, hrun, Stream.preload_snd,
    Stream.preload?_transportAll]
  simp only [beside, Option.toList_none, List.map_nil, List.append_nil]

/-- A whole preload leads from a reachable state to another. -/
theorem Reachable.preload (h : Reachable C b) (events : List TransportEvent) :
    Reachable C
      { b with stream := (b.stream.preload C events).2, nextPreload := b.nextPreload + 1 } := by
  obtain ⟨steps, hrun⟩ := exists_run_preload h events
  rw [← hrun]
  exact reachable_run C h steps

end Broadcast

end RewindRelay
