import RewindRelay.Proofs.Listener.Wake
/-!
# Wakers on a stream

A stream has no other means of reaching its listeners than the calls that each of them takes: a
delivery adds chunks and moves the seat, a sweep closes the queue and takes the seat away, a stream
that starts over forgets the cursors.  So what holds of a listener after any calls holds of all
listeners at any time, and a waker that is registered on a stream is that of a reader who has
nothing to come back for.

* `Listener.InUse` — what a new listener can become by calls.
* `Stream.Serves.apply` — **an operation of a stream is calls on its listeners.**
* `Broadcast.Reachable.attentive` — a waker on a stream in use belongs to an idle listener.
-/

namespace RewindRelay

/-! ## Calls that a stream makes -/

namespace Listener

/-- A new listener to which some calls were made. -/
def InUse (l : Listener) : Prop :=
  ∃ (id : ListenerId) (options : ListenOptions) (readSize : ℕ) (calls : List Call),
    l = callAll { id, options, readSize } calls

variable {l : Listener}

lemma inUse_new (id : ListenerId) (options : ListenOptions) (readSize : ℕ) :
    InUse { id, options, readSize } :=
  ⟨id, options, readSize, [], rfl⟩

lemma InUse.callAll (h : l.InUse) (calls : List Call) : (l.callAll calls).InUse := by
  obtain ⟨id, options, readSize, past, rfl⟩ := h
  exact ⟨id, options, readSize, past ++ calls, (callAll_append _ _ _).symm⟩

lemma InUse.attentive (h : l.InUse) : l.Attentive := by
  obtain ⟨id, options, readSize, calls, rfl⟩ := h
  have hnew : Attentive { id, options, readSize } := fun hwaker => absurd rfl hwaker
  exact hnew.callAll calls

lemma InUse.act (h : l.InUse) (s : Stream) (a : Stream.ListenerAction) : (a.apply s l).InUse :=
  h.callAll [.act s a]

lemma InUse.unseat (h : l.InUse) : l.unseat.InUse := h.callAll [.close, .place none]

lemma InUse.forgetCursor (h : l.InUse) : l.forgetCursor.InUse := h.callAll [.place _]

lemma InUse.deliverTo (h : l.InUse) (s : Stream) (store : Store) :
    (Stream.deliverTo store l).InUse := by
  unfold Stream.deliverTo
  split
  · exact h
  · split
    · exact h
    · exact h.callAll [.act s (.enqueue _), .place (some _)]

end Listener

/-! ## Operations -/

namespace Stream

variable {s s' : Stream}

/-- All listeners of the stream are in use. -/
def Serves (s : Stream) : Prop := ∀ l ∈ s.listeners, l.InUse

namespace Serves

lemma map (h : s.Serves) {f : Listener → Listener} (hf : ∀ l, l.InUse → (f l).InUse)
    (hs' : s'.listeners = s.listeners.map f) : s'.Serves := by
  intro l' hl'
  rw [hs'] at hl'
  obtain ⟨l, hl, rfl⟩ := List.mem_map.mp hl'
  exact hf l (h l hl)

lemma of_eq (h : s.Serves) (hs' : s'.listeners = s.listeners) : s'.Serves := fun l hl =>
  h l (hs' ▸ hl)

lemma push (h : s.Serves) (c : Chunk) : (s.push c).2.Serves := by
  rcases s.push_cases c with ⟨-, heq⟩ | ⟨-, -, heq⟩ | ⟨-, -, heq⟩ <;> rw [heq]
  · exact h
  · exact h.map (fun l hl => hl.deliverTo s _) rfl
  · exact h

lemma updateVitals (h : s.Serves) (v : Vitals) : (s.updateVitals v).2.Serves := by
  rcases s.updateVitals_cases v with ⟨-, heq⟩ | ⟨-, -, heq⟩ | ⟨-, -, heq⟩ <;> rw [heq]
  · exact h
  · exact h
  · exact h.map (fun l hl => hl.forgetCursor) rfl

lemma act (h : s.Serves) (id : ListenerId) (a : ListenerAction) : (s.act id a).Serves := by
  unfold Stream.act serve
  cases hl : s.listener? id with
  | none => exact h
  | some l =>
      have hacted := (h l (List.mem_of_find?_eq_some hl)).act s a
      intro l' hl'
      obtain ⟨x, hx, rfl⟩ := List.mem_map.mp hl'
      split
      · exact hacted
      · exact h x hx

lemma destroy (h : s.Serves) : s.destroy.Serves := by
  unfold Stream.destroy
  split
  · exact h
  · refine h.map (fun l hl => ?_) rfl
    split
    · exact hl.unseat
    · exact hl

/-- **An operation of a stream is calls on its listeners.** -/
theorem apply (h : s.Serves) (op : Operation) : (op.apply s).Serves := by
  cases op with
  | push c => exact h.push c
  | updateVitals v => exact h.updateVitals v
  | setWindow _ | adjust => exact h
  | reset => exact h.map (fun l hl => hl.forgetCursor) rfl
  | destroy => exact h.destroy
  | join options readSize =>
      intro l hl
      rcases List.mem_append.mp hl with hl | hl
      · exact h l hl
      · rw [List.mem_singleton.mp hl]
        exact Listener.inUse_new _ _ _
  | serve id a => exact h.act id a
  | drop id => exact fun l hl => h.act id .leave l (List.mem_of_mem_filter hl)
  | reports =>
      refine h.map (fun l hl => ?_) rfl
      split
      · exact hl.act s .takeInterval
      · exact hl
  | disconnectSlow maxBytes =>
      refine h.map (fun l hl => ?_) rfl
      split
      · exact hl.unseat
      · exact hl

lemma stepPreload (h : s.Serves) (C : Codec) (p : Preload) (a : PreloadAction) :
    (s.stepPreload C p a).2.Serves := by
  have hspec := stepPreload_spec C s p a
  generalize s.stepPreload C p a = result at hspec
  cases hspec with
  | header hd loader decoded usable => exact h.updateVitals hd.vitals
  | _ => exact h

end Serves

end Stream

namespace Broadcast

variable {C : Codec} {b : Broadcast}

lemma serves_step (h : b.stream.Serves) (C : Codec) (event : Event) :
    (b.step C event).stream.Serves := by
  cases event with
  | operate op => exact h.apply op
  | start => exact h
  | preload id a =>
      simp only [step]
      split
      · exact h.stepPreload C _ a
      · exact h

lemma Reachable.serves (hb : Reachable C b) : b.stream.Serves := by
  induction hb with
  | new name windowSeconds readSize => exact fun l hl => absurd hl List.not_mem_nil
  | step event _ ih => exact serves_step ih C event

/-- **Wakers on a stream in use.**  Wherever one is registered the listener is streaming, and its
queue is open, empty and not on its last call. -/
theorem Reachable.attentive (hb : Reachable C b) : ∀ l ∈ b.stream.listeners, l.Attentive :=
  fun l hl => (hb.serves l hl).attentive

end Broadcast

end RewindRelay
