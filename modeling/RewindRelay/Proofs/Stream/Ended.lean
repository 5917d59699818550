import RewindRelay.Proofs.Broadcast.Run
/-!
# After the end of a stream

A stream that is destroyed is not taken away.  Its vitals, its window and its preloads go on, and
only what brings audio in asks whether the stream has ended.  That is enough: nothing ends the end,
and the store stays as empty as it was left.

* `Broadcast.destroyed_step` — only one event ends a stream, and none brings it back.
* `Broadcast.chunks_step_of_destroyed` — **no event brings audio into a stream that has ended.**
-/

namespace RewindRelay

namespace Stream

variable {s : Stream}

/-! ## The end -/

lemma destroyed_destroy (s : Stream) : s.destroy.destroyed = true := by
  unfold destroy
  split
  · next h => exact h
  · rfl

lemma destroyed_apply (s : Stream) (op : Operation) :
    (op.apply s).destroyed =
      match op with
      | .destroy => true
      | _ => s.destroyed := by
  cases op with
  | push c => exact s.destroyed_push c
  | updateVitals v => exact s.destroyed_updateVitals v
  | destroy => exact s.destroyed_destroy
  | serve id a => exact s.destroyed_act id a
  | drop id => exact s.destroyed_act id .leave
  | _ => rfl

lemma destroyed_stepPreload (C : Codec) (s : Stream) (p : Preload) (a : PreloadAction) :
    (s.stepPreload C p a).2.destroyed = s.destroyed := by
  have hspec := stepPreload_spec C s p a
  generalize s.stepPreload C p a = result at hspec ⊢
  cases hspec with
  | header h loader decoded usable => exact s.destroyed_updateVitals h.vitals
  | _ => rfl

/-! ## The audio after the end -/

lemma chunks_adjust_of_nil (h : s.store.chunks = []) : s.adjust.store.chunks = [] := by
  simp only [adjust, Store.setCapacity, Store.evict, h, List.drop_nil]

lemma chunks_updateVitals_of_nil (h : s.store.chunks = []) (v : Vitals) :
    (s.updateVitals v).2.store.chunks = [] := by
  rcases updateVitals_cases s v with ⟨-, heq⟩ | ⟨-, -, heq⟩ | ⟨-, -, heq⟩ <;> rw [heq]
  · exact h
  · exact chunks_adjust_of_nil h
  · exact chunks_adjust_of_nil rfl

lemma chunks_apply_of_destroyed (hd : s.destroyed = true) (h : s.store.chunks = [])
    (op : Operation) : (op.apply s).store.chunks = [] := by
  cases op with
  | push c =>
      rcases push_cases s c with ⟨-, heq⟩ | ⟨alive, -⟩ | ⟨alive, -⟩
      · rw [Operation.apply, heq, h]
      · rw [hd] at alive; cases alive
      · rw [hd] at alive; cases alive
  | updateVitals v => exact chunks_updateVitals_of_nil h v
  | setWindow seconds => exact chunks_adjust_of_nil h
  | adjust => exact chunks_adjust_of_nil h
  | reset => rfl
  | destroy =>
      rw [Operation.apply, destroy, if_pos hd]
      exact h
  | serve id a => rw [Operation.apply, store_act, h]
  | drop id => exact (congrArg Store.chunks (s.store_act id .leave)).trans h
  | join _ _ | reports | disconnectSlow _ => exact h

lemma chunks_stepPreload_of_destroyed (hd : s.destroyed = true) (h : s.store.chunks = [])
    (C : Codec) (p : Preload) (a : PreloadAction) :
    (s.stepPreload C p a).2.store.chunks = [] := by
  have hspec := stepPreload_spec C s p a
  generalize s.stepPreload C p a = result at hspec ⊢
  cases hspec with
  | header hd loader decoded usable => exact chunks_updateVitals_of_nil h hd.vitals
  | chunk c loader summary decoded alive same => rw [hd] at alive; cases alive
  | waits loader same => exact h
  | ends => exact h

end Stream

namespace Broadcast

/-- Only one event ends a stream, and none brings it back. -/
lemma destroyed_step (C : Codec) (b : Broadcast) (event : Event) :
    (b.step C event).stream.destroyed =
      match event with
      | .operate .destroy => true
      | _ => b.stream.destroyed := by
  cases event with
  | start => rfl
  | preload id a =>
      simp only [step]
      split
      · next p _ => exact b.stream.destroyed_stepPreload C p a
      · rfl
  | operate op =>
      refine (b.stream.destroyed_apply op).trans ?_
      cases op <;> rfl

lemma destroyed_step_of_destroyed {b : Broadcast} (h : b.stream.destroyed = true) (C : Codec)
    (event : Event) : (b.step C event).stream.destroyed = true := by
  rw [destroyed_step]
  split
  · rfl
  · exact h

/-- **No event brings audio into a stream that has ended.** -/
theorem chunks_step_of_destroyed {b : Broadcast} (hd : b.stream.destroyed = true)
    (h : b.stream.store.chunks = []) (C : Codec) (event : Event) :
    (b.step C event).stream.store.chunks = [] := by
  cases event with
  | start => rfl
  | operate op => exact Stream.chunks_apply_of_destroyed hd h op
  | preload id a =>
      simp only [step]
      split
      · next p _ => exact Stream.chunks_stepPreload_of_destroyed hd h C p a
      · exact h

/-- A stream that has ended has no audio. -/
lemma Reachable.chunks_of_destroyed {C : Codec} {b : Broadcast} (hb : Reachable C b)
    (hd : b.stream.destroyed = true) : b.stream.store.chunks = [] := by
  induction hb with
  | new name windowSeconds readSize => cases hd
  | @step b event _ ih =>
      by_cases hold : b.stream.destroyed = true
      · exact chunks_step_of_destroyed hold (ih hold) C event
      · -- this event ends the stream
        rw [destroyed_step] at hd
        split at hd
        · simp only [Broadcast.step, Stream.Operation.apply, Stream.destroy, hold]
          rfl
        · exact absurd hd hold

end Broadcast

end RewindRelay
