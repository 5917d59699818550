import RewindRelay.Proofs.Broadcast.Run
import RewindRelay.Dump.Document
/-!
# The loading mark

A stream is marked as loading while a preload runs, so that nobody is seated in a window that is
about to be replaced.  The mark is one bit: every preload raises it when it starts and takes it
away when it ends, and nothing counts how many there are.

* `Broadcast.LoadingLaw` — the mark is up exactly while a preload runs, and while one runs the
  stream is not ready and nobody is seeded or seated.
* `Broadcast.Reachable.running_ne_nil` — the mark is never up without a preload.
* `Broadcast.loadingLaw_throughout_iff` — **the law holds throughout a run exactly when no preload
  ends beside another one.**
* `Broadcast.not_forall_loadingLaw` — two preloads that overlap break it.
-/

namespace RewindRelay

/-! ## Who has been let in -/

/-- Has the listener been seeded, or does it have a seat? -/
def Listener.isAdmitted (l : Listener) : Bool := decide (l.phase = .streaming) || l.isSeated

namespace Stream

def admitted (s : Stream) : List ListenerId :=
  (s.listeners.filter Listener.isAdmitted).map Listener.id

lemma mem_admitted {s : Stream} {id : ListenerId} :
    id ∈ s.admitted ↔ ∃ l ∈ s.listeners, l.isAdmitted = true ∧ l.id = id := by
  simp only [admitted, List.mem_map, List.mem_filter, and_assoc]

variable {s : Stream}

/-- Nobody is let in by an operation that admits no listener that was not admitted. -/
lemma admitted_subset {s' : Stream} (h : ∀ l' ∈ s'.listeners, l'.isAdmitted = true →
    ∃ l ∈ s.listeners, l.isAdmitted = true ∧ l.id = l'.id) : s'.admitted ⊆ s.admitted := by
  intro id hid
  obtain ⟨l', hl', hadm, rfl⟩ := mem_admitted.mp hid
  exact mem_admitted.mpr (h l' hl' hadm)

lemma admitted_map_subset {s' : Stream} {f : Listener → Listener}
    (hs' : s'.listeners = s.listeners.map f) (hid : ∀ l, (f l).id = l.id)
    (hf : ∀ l, (f l).isAdmitted = true → l.isAdmitted = true) : s'.admitted ⊆ s.admitted := by
  refine admitted_subset fun l' hl' hadm => ?_
  rw [hs'] at hl'
  obtain ⟨l, hl, rfl⟩ := List.mem_map.mp hl'
  exact ⟨l, hl, hf l hadm, (hid l).symm⟩

end Stream

namespace Listener

variable {l : Listener}

lemma isAdmitted_iff : l.isAdmitted = true ↔ l.phase = .streaming ∨ l.seat.isSome = true := by
  simp [isAdmitted, isSeated]

@[simp] lemma isAdmitted_forgetCursor (l : Listener) :
    l.forgetCursor.isAdmitted = l.isAdmitted := by
  rw [Bool.eq_iff_iff, isAdmitted_iff, isAdmitted_iff]
  simp [forgetCursor]

@[simp] lemma isAdmitted_deliverTo (store : Store) (l : Listener) :
    (Stream.deliverTo store l).isAdmitted = l.isAdmitted := by
  unfold Stream.deliverTo
  split
  · rfl
  · split
    · rfl
    · next heq _ _ _ => simp [isAdmitted, isSeated, enqueue, heq]

lemma isAdmitted_of_unseat (h : l.unseat.isAdmitted = true) : l.isAdmitted = true := by
  rw [isAdmitted_iff] at h ⊢
  exact h.imp (fun hp => hp) (by simp [unseat])

lemma isAdmitted_of_close (h : l.close.isAdmitted = true) : l.isAdmitted = true := by
  unfold Listener.close at h
  split at h
  · exact h
  · simp [isAdmitted_iff, unseat] at h

/-- While the stream is marked as loading nothing that a listener does lets it in. -/
lemma isAdmitted_of_apply {s : Stream} (hs : s.loading = true) {a : Stream.ListenerAction}
    (h : (a.apply s l).isAdmitted = true) : l.isAdmitted = true := by
  have hattach : ∃ e, s.attach l = .error e := by
    cases hattach : s.attach l with
    | error e => exact ⟨e, rfl⟩
    | ok joined =>
        obtain ⟨-, hidle, -⟩ := Stream.attach_eq_ok_iff.mp hattach
        rw [hs] at hidle
        cases hidle
  obtain ⟨e, hattach⟩ := hattach
  cases a with
  | pump =>
      simp only [Stream.ListenerAction.apply, Stream.pumpListener, hattach] at h
      split at h <;> exact h
  | poll waker =>
      cases hphase : l.phase with
      | closed => simpa only [Stream.ListenerAction.apply, Stream.pollListener, hphase] using h
      | streaming => simp [isAdmitted_iff, hphase]
      | seeding =>
          simp only [Stream.ListenerAction.apply, Stream.pollListener, Stream.pumpListener, hphase,
            if_true, hattach] at h
          cases e with
          | stream e =>
              rw [isAdmitted_iff] at h ⊢
              exact h.imp (by simp) (fun hs => hs)
          | fault f => exact h
  | read size =>
      simp only [Stream.ListenerAction.apply, read] at h
      split at h <;> exact h
  | enqueue cs => exact h
  | takeInterval => exact h
  | leave => exact isAdmitted_of_close h

end Listener

namespace Stream

variable {s : Stream}

lemma admitted_act_subset (hs : s.loading = true) (id : ListenerId) (a : ListenerAction) :
    (s.act id a).admitted ⊆ s.admitted := by
  unfold act serve
  cases hf : s.listener? id with
  | none => exact List.Subset.refl _
  | some l =>
      have hmem : l ∈ s.listeners := List.mem_of_find?_eq_some hf
      refine admitted_subset fun l' hl' hadm => ?_
      obtain ⟨l₀, hl₀, rfl⟩ := List.mem_map.mp hl'
      split_ifs at hadm ⊢
      · exact ⟨l, hmem, Listener.isAdmitted_of_apply hs hadm, (Listener.id_apply s l a).symm⟩
      · exact ⟨l₀, hl₀, hadm, rfl⟩

lemma admitted_forget_subset (s : Stream) (id : ListenerId) : (s.forget id).admitted ⊆ s.admitted :=
  admitted_subset fun l hl hadm => ⟨l, List.mem_of_mem_filter hl, hadm, rfl⟩

lemma admitted_reset_subset (s : Stream) : s.reset.admitted ⊆ s.admitted :=
  admitted_map_subset rfl (fun _ => rfl) fun l h => by rwa [Listener.isAdmitted_forgetCursor] at h

lemma admitted_updateVitals_subset (s : Stream) (v : Vitals) :
    (s.updateVitals v).2.admitted ⊆ s.admitted := by
  rcases updateVitals_cases s v with ⟨-, heq⟩ | ⟨-, -, heq⟩ | ⟨-, -, heq⟩ <;> rw [heq]
  · exact List.Subset.refl _
  · exact List.Subset.refl _
  · exact s.admitted_reset_subset

/-- While the stream is marked as loading no operation lets anybody in. -/
lemma admitted_apply_subset (hs : s.loading = true) (op : Operation) :
    (op.apply s).admitted ⊆ s.admitted := by
  cases op with
  | push c =>
      simp only [Operation.apply]
      rcases push_cases s c with ⟨-, heq⟩ | ⟨-, -, heq⟩ | ⟨-, -, heq⟩ <;> rw [heq]
      · exact List.Subset.refl _
      · exact admitted_map_subset rfl (Listener.id_deliverTo _) fun l h => by
          rwa [Listener.isAdmitted_deliverTo] at h
      · exact List.Subset.refl _
  | updateVitals v => exact s.admitted_updateVitals_subset v
  | setWindow seconds => exact List.Subset.refl _
  | adjust => exact List.Subset.refl _
  | reset => exact s.admitted_reset_subset
  | destroy =>
      simp only [Operation.apply, destroy]
      split
      · exact List.Subset.refl _
      · refine admitted_map_subset rfl (fun l => by split <;> rfl) fun l h => ?_
        split at h
        · exact Listener.isAdmitted_of_unseat h
        · exact h
  | join options readSize =>
      refine admitted_subset fun l hl hadm => ?_
      rcases List.mem_append.mp hl with hl | hl
      · exact ⟨l, hl, hadm, rfl⟩
      · rw [List.mem_singleton.mp hl] at hadm
        cases hadm
  | serve id a => exact admitted_act_subset hs id a
  | drop id =>
      exact List.Subset.trans (admitted_forget_subset _ id) (admitted_act_subset hs id .leave)
  | reports =>
      refine admitted_map_subset rfl (fun l => by split <;> rfl) fun l h => ?_
      split at h <;> exact h
  | disconnectSlow maxBytes =>
      refine admitted_map_subset rfl (fun l => by split <;> rfl) fun l h => ?_
      split at h
      · exact Listener.isAdmitted_of_unseat h
      · exact h

lemma admitted_stepPreload_subset (C : Codec) (s : Stream) (p : Preload) (a : PreloadAction) :
    (s.stepPreload C p a).2.admitted ⊆ s.admitted := by
  have hspec := stepPreload_spec C s p a
  generalize s.stepPreload C p a = result at hspec
  cases hspec with
  | waits loader same => exact List.Subset.refl _
  | header h loader decoded usable => exact s.admitted_updateVitals_subset h.vitals
  | chunk c loader summary decoded alive same => exact List.Subset.refl _
  | ends => exact List.Subset.refl _

/-! ## Who moves the mark -/

lemma loading_updateVitals (s : Stream) (v : Vitals) :
    (s.updateVitals v).2.loading = s.loading := by
  rw [updateVitals_frame]

lemma loading_act (s : Stream) (id : ListenerId) (a : ListenerAction) :
    (s.act id a).loading = s.loading := by
  rw [act_frame]

lemma loading_apply (s : Stream) (op : Operation) : (op.apply s).loading = s.loading := by
  cases op with
  | push c =>
      simp only [Operation.apply]
      rcases push_cases s c with ⟨-, heq⟩ | ⟨-, -, heq⟩ | ⟨-, -, heq⟩
      · rw [heq]
      · rw [heq]; rfl
      · rw [heq]
  | updateVitals v => exact s.loading_updateVitals v
  | destroy => simp only [Operation.apply, destroy]; split <;> rfl
  | serve id a => exact s.loading_act id a
  | drop id => exact s.loading_act id .leave
  | _ => rfl

/-- A preload leaves the mark alone as long as it goes on, and takes it away when it ends. -/
lemma loading_stepPreload (C : Codec) (s : Stream) (p : Preload) (a : PreloadAction) :
    (s.stepPreload C p a).2.loading =
      if (s.stepPreload C p a).1.isSome then s.loading else false := by
  have hspec := stepPreload_spec C s p a
  generalize s.stepPreload C p a = result at hspec ⊢
  cases hspec with
  | waits loader same => rfl
  | header h loader decoded usable => exact s.loading_updateVitals h.vitals
  | chunk c loader summary decoded alive same => rfl
  | ends => rfl

end Stream

namespace Broadcast

variable {C : Codec} {b : Broadcast}

/-! ## Who is running -/

/-- A preload that goes on stays among the running ones. -/
lemma lookup_settle_some (b : Broadcast) (id k : PreloadId) (p : Preload) :
    (b.settle id (some p)).lookup k = none ↔ b.running.lookup k = none := by
  simp only [settle, List.lookup_eq_none_iff, List.mem_map]
  constructor
  · rintro h r hr
    have := h _ ⟨r, hr, rfl⟩
    split at this
    · next heq => rwa [heq]
    · exact this
  · rintro h _ ⟨r, hr, rfl⟩
    split
    · next heq => rw [← heq]; exact h r hr
    · exact h r hr

lemma lookup_settle_none (b : Broadcast) (id : PreloadId) :
    (b.settle id none).lookup id = none := by
  simp only [settle, List.lookup_eq_none_iff, List.mem_filter, decide_eq_true_eq]
  rintro r ⟨-, hne⟩
  simpa using fun h => hne h.symm

lemma settle_some_ne_nil (h : b.running ≠ []) (id : PreloadId) (p : Preload) :
    b.settle id (some p) ≠ [] := by
  simpa [settle] using h

lemma ne_nil_of_lookup {id : PreloadId} {p : Preload} (h : b.running.lookup id = some p) :
    b.running ≠ [] := by
  rintro hnil
  rw [hnil] at h
  cases h

/-- An event ends a preload, and another one is still running. -/
def EndsBesideAnother (C : Codec) (b : Broadcast) (event : Event) : Prop :=
  (∃ id, b.running.lookup id ≠ none ∧ (b.step C event).running.lookup id = none) ∧
    (b.step C event).running ≠ []

/-! ## The law -/

/-- What the mark is for. -/
structure LoadingLaw (C : Codec) (b : Broadcast) : Prop where
  /-- The stream is marked exactly while a preload is running. -/
  marked_iff : b.stream.loading = true ↔ b.running ≠ []
  /-- It is not ready meanwhile. -/
  not_ready : b.running ≠ [] → b.stream.isReady = false
  /-- Nobody is seeded or seated meanwhile. -/
  shut : b.running ≠ [] → ∀ event, (b.step C event).stream.admitted ⊆ b.stream.admitted

lemma admitted_step_subset (h : b.stream.loading = true) (event : Event) :
    (b.step C event).stream.admitted ⊆ b.stream.admitted := by
  cases event with
  | operate op => exact Stream.admitted_apply_subset h op
  | start => exact List.Subset.refl _
  | preload id a =>
      simp only [step]
      split
      · exact Stream.admitted_stepPreload_subset C _ _ a
      · exact List.Subset.refl _

/-- The rest of the law follows from the mark being right. -/
lemma loadingLaw_iff : LoadingLaw C b ↔ (b.stream.loading = true ↔ b.running ≠ []) := by
  constructor
  · exact LoadingLaw.marked_iff
  · intro h
    refine ⟨h, fun hrun => ?_, fun hrun event => admitted_step_subset (h.mpr hrun) event⟩
    simp [Stream.isReady, h.mpr hrun]

/-- From a state in which the mark is right, it goes wrong exactly when a preload ends beside
another one. -/
lemma marked_step_iff (h : b.stream.loading = true ↔ b.running ≠ []) (event : Event) :
    ((b.step C event).stream.loading = true ↔ (b.step C event).running ≠ []) ↔
      ¬ EndsBesideAnother C b event := by
  cases event with
  | operate op =>
      have hnot : ¬ EndsBesideAnother C b (.operate op) := fun ⟨⟨id, hid, hend⟩, _⟩ => hid hend
      simpa only [step, Stream.loading_apply, hnot, not_false_eq_true, iff_true] using h
  | start =>
      have hnot : ¬ EndsBesideAnother C b .start := by
        rintro ⟨⟨id, hid, hend⟩, -⟩
        simp only [step, List.lookup_append] at hend
        exact hid (Option.or_eq_none_iff.mp hend).1
      simp [step, Stream.beginPreload, hnot]
  | preload id a =>
      cases hl : b.running.lookup id with
      | none =>
          have hsame : b.step C (.preload id a) = b := by simp only [step, hl]
          have hnot : ¬ EndsBesideAnother C b (.preload id a) := by
            rintro ⟨⟨k, hk, hend⟩, -⟩
            rw [hsame] at hend
            exact hk hend
          simpa only [hsame, hnot, not_false_eq_true, iff_true] using h
      | some p =>
          have hload := Stream.loading_stepPreload C b.stream p a
          have hrun := ne_nil_of_lookup hl
          simp only [EndsBesideAnother, step, hl]
          cases hp : (b.stream.stepPreload C p a).1 with
          | some p' =>
              -- the preload goes on: the mark and the running ones are as before
              rw [hp] at hload
              simp only [hload, Option.isSome_some, if_true, h, hrun, ne_eq, not_false_eq_true,
                settle_some_ne_nil hrun, lookup_settle_some, not_and_self_iff,
                exists_false, false_and]
          | none =>
              -- it has ended: the mark is gone, and right only if nothing is left
              rw [hp] at hload
              have hend : b.running.lookup id ≠ none ∧ (b.settle id none).lookup id = none :=
                ⟨by simp [hl], lookup_settle_none b id⟩
              simp only [hload, Option.isSome_none, Bool.false_eq_true, if_false, false_iff,
                not_and]
              exact ⟨fun hnil _ => hnil, fun hnil => hnil ⟨id, hend⟩⟩

/-- The mark is never up without a preload. -/
lemma Reachable.running_ne_nil (h : Reachable C b) : b.stream.loading = true → b.running ≠ [] := by
  induction h with
  | new name windowSeconds readSize => simp [Broadcast.new, Stream.new, Stream.adjust]
  | @step b event _ ih =>
      cases event with
      | operate op => simpa only [Broadcast.step, Stream.loading_apply] using ih
      | start => simp [Broadcast.step]
      | preload id a =>
          cases hl : b.running.lookup id with
          | none => simpa only [Broadcast.step, hl] using ih
          | some p =>
              have hload := Stream.loading_stepPreload C b.stream p a
              simp only [Broadcast.step, hl]
              cases hp : (b.stream.stepPreload C p a).1 with
              | some p' => exact fun _ => settle_some_ne_nil (ne_nil_of_lookup hl) id p'
              | none => simp [hload, hp]

/-- **The loading mark, exactly.**  Throughout a run the mark is up exactly while a preload is
running, with all that follows, if and only if no event of the run ends a preload while another one
is running. -/
theorem loadingLaw_throughout_iff (C : Codec) (name : String) (windowSeconds : Float)
    (readSize : ℕ) (events : List Event) :
    Throughout (step C) (new name windowSeconds readSize) events (LoadingLaw C) ↔
      Never (step C) (new name windowSeconds readSize) events (EndsBesideAnother C) := by
  have hnew : LoadingLaw C (new name windowSeconds readSize) :=
    loadingLaw_iff.mpr (by simp [new, Stream.new, Stream.adjust])
  refine throughout_iff_never (fun _ => True) trivial (fun _ _ _ => trivial) hnew ?_
  intro b event _ hlaw
  rw [loadingLaw_iff]
  exact marked_step_iff hlaw.marked_iff event

/-- Two preloads that overlap: the one that started first ends. -/
def overlap : List Event := [.start, .start, .preload 0 (.transport .closed)]

/-- **The mark is not exact in every run.**  When the first of two overlapping preloads ends, the
mark is gone and the stream ready, though the other one is still running. -/
theorem not_forall_loadingLaw :
    ¬ ∀ events, Throughout (step .json) (new "main" 300 65536) events (LoadingLaw .json) := by
  intro h
  have hlaw := h overlap overlap (List.prefix_refl _)
  have hrun : (overlap.foldl (step .json) (new "main" 300 65536)).running.length = 1 := by
    decide +kernel
  have hready : (overlap.foldl (step .json) (new "main" 300 65536)).stream.isReady = true := by
    decide +kernel
  have hne : (overlap.foldl (step .json) (new "main" 300 65536)).running ≠ [] := by
    intro hnil
    rw [hnil] at hrun
    cases hrun
  rw [hlaw.not_ready hne] at hready
  cases hready

end Broadcast

end RewindRelay
