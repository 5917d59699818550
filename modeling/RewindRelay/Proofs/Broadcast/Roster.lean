import RewindRelay.Proofs.Broadcast.Run
import RewindRelay.Proofs.Stream.Seat
/-!
# The roster of a stream

Every listener that joins is given a number, and no number is given twice, not even after the
listener has gone.  So a number always means the same listener: whoever is found by it is the one
that got it.

* `Stream.ids` — the numbers of all listeners.
* `Stream.ids_apply`, `Stream.nextListener_apply` — who comes and who goes.
* `Stream.Numbered` — no number is given twice.
* `Stream.listener?_eq_some_iff` — **a number means one listener.**
* `Stream.Numbered.put_self` — putting it back as it was changes nothing.
* `Broadcast.numbered_step` — so it stays, whatever happens.
-/

namespace RewindRelay

namespace Stream

variable {s s' : Stream}

/-- The numbers of all listeners, seated or not. -/
def ids (s : Stream) : List ListenerId := s.listeners.map Listener.id

lemma ids_eq_of_map {f : Listener → Listener} (hs' : s'.listeners = s.listeners.map f)
    (hf : ∀ l, (f l).id = l.id) : s'.ids = s.ids := by
  rw [ids, hs', List.map_map]
  exact List.map_congr_left fun l _ => hf l

/-! ## Who comes and who goes -/

lemma ids_push (s : Stream) (c : Chunk) : (s.push c).2.ids = s.ids := by
  rcases push_cases s c with ⟨-, heq⟩ | ⟨-, -, heq⟩ | ⟨-, -, heq⟩ <;> rw [heq]
  · exact ids_eq_of_map rfl (Listener.id_deliverTo _)
  · rfl

lemma ids_updateVitals (s : Stream) (v : Vitals) : (s.updateVitals v).2.ids = s.ids := by
  rcases updateVitals_cases s v with ⟨-, heq⟩ | ⟨-, -, heq⟩ | ⟨-, -, heq⟩ <;> rw [heq]
  · rfl
  · exact ids_eq_of_map rfl fun _ => rfl

lemma ids_act (s : Stream) (id : ListenerId) (a : ListenerAction) : (s.act id a).ids = s.ids := by
  unfold act serve
  cases hf : s.listener? id with
  | none => rfl
  | some l =>
      refine ids_eq_of_map rfl fun l' => ?_
      split
      · next heq => exact heq.symm
      · rfl

lemma ids_forget (s : Stream) (id : ListenerId) :
    (s.forget id).ids = s.ids.filter fun k => k != id := by
  simp only [ids, Stream.forget, List.filter_map]
  rfl

lemma ids_apply (s : Stream) (op : Operation) :
    (op.apply s).ids =
      match op with
      | .join _ _ => s.ids ++ [s.nextListener]
      | .drop id => s.ids.filter fun k => k != id
      | _ => s.ids := by
  cases op with
  | push c => exact s.ids_push c
  | updateVitals v => exact s.ids_updateVitals v
  | setWindow seconds => rfl
  | adjust => rfl
  | reset => exact ids_eq_of_map rfl fun _ => rfl
  | destroy =>
      simp only [Operation.apply, destroy]
      split
      · rfl
      · exact ids_eq_of_map rfl fun l => by split <;> rfl
  | join options readSize => exact List.map_append
  | serve id a => exact s.ids_act id a
  | drop id => simp only [Operation.apply, ids_forget, ids_act]
  | reports => exact ids_eq_of_map rfl fun l => by split <;> rfl
  | disconnectSlow maxBytes => exact ids_eq_of_map rfl fun l => by split <;> rfl

lemma nextListener_updateVitals (s : Stream) (v : Vitals) :
    (s.updateVitals v).2.nextListener = s.nextListener := by
  rw [updateVitals_frame]

lemma nextListener_act (s : Stream) (id : ListenerId) (a : ListenerAction) :
    (s.act id a).nextListener = s.nextListener := by
  rw [act_frame]

lemma nextListener_apply (s : Stream) (op : Operation) :
    (op.apply s).nextListener =
      match op with
      | .join _ _ => s.nextListener + 1
      | _ => s.nextListener := by
  cases op with
  | push c =>
      simp only [Operation.apply]
      rcases push_cases s c with ⟨-, heq⟩ | ⟨-, -, heq⟩ | ⟨-, -, heq⟩ <;> simp only [heq]
      rfl
  | updateVitals v => exact s.nextListener_updateVitals v
  | destroy => simp only [Operation.apply, destroy]; split <;> rfl
  | serve id a => exact s.nextListener_act id a
  | drop id => exact s.nextListener_act id .leave
  | _ => rfl

lemma ids_stepPreload (C : Codec) (s : Stream) (p : Preload) (a : PreloadAction) :
    (s.stepPreload C p a).2.ids = s.ids ∧
      (s.stepPreload C p a).2.nextListener = s.nextListener := by
  have hspec := stepPreload_spec C s p a
  generalize s.stepPreload C p a = result at hspec ⊢
  cases hspec with
  | header h loader decoded usable =>
      exact ⟨s.ids_updateVitals h.vitals, s.nextListener_updateVitals h.vitals⟩
  | _ => exact ⟨rfl, rfl⟩

/-! ## Numbers -/

/-- No number is given twice: all that were given are smaller than the next one. -/
structure Numbered (s : Stream) : Prop where
  nodup : s.ids.Nodup
  lt : ∀ id ∈ s.ids, id < s.nextListener

lemma Numbered.of_eq (h : s.Numbered) (hids : s'.ids = s.ids)
    (hnext : s'.nextListener = s.nextListener) : s'.Numbered :=
  ⟨by rw [hids]; exact h.nodup, by rw [hids, hnext]; exact h.lt⟩

lemma Numbered.apply (h : s.Numbered) (op : Operation) : (op.apply s).Numbered := by
  have hids := s.ids_apply op
  have hnext := s.nextListener_apply op
  cases op with
  | join options readSize =>
      have hnew : ∀ id ∈ s.ids, id ≠ s.nextListener := fun id hid => Nat.ne_of_lt (h.lt id hid)
      refine ⟨?_, fun id hid => ?_⟩
      · rw [hids]
        exact List.nodup_append.mpr ⟨h.nodup, List.nodup_singleton _, by simpa using hnew⟩
      · rw [hids, List.mem_append, List.mem_singleton] at hid
        rw [hnext]
        rcases hid with hid | rfl
        · exact Nat.lt_succ_of_lt (h.lt id hid)
        · exact Nat.lt_succ_self _
  | drop id =>
      refine ⟨by rw [hids]; exact h.nodup.filter _, fun k hk => ?_⟩
      rw [hids] at hk
      rw [hnext]
      exact h.lt k (List.mem_of_mem_filter hk)
  | _ => exact h.of_eq hids hnext

lemma mem_ids_of_listener? {id : ListenerId} {l : Listener} (hl : s.listener? id = some l) :
    id ∈ s.ids :=
  List.mem_map.mpr ⟨l, List.mem_of_find?_eq_some hl, listener?_id hl⟩

lemma Numbered.lt_of_listener? (h : s.Numbered) {id : ListenerId} {l : Listener}
    (hl : s.listener? id = some l) : id < s.nextListener :=
  h.lt id (mem_ids_of_listener? hl)

/-- **A number means one listener.** -/
theorem listener?_eq_some_iff (h : s.Numbered) {id : ListenerId} {l : Listener} :
    s.listener? id = some l ↔ l ∈ s.listeners ∧ l.id = id := by
  refine ⟨fun hl => ⟨List.mem_of_find?_eq_some hl, listener?_id hl⟩, ?_⟩
  rintro ⟨hmem, rfl⟩
  obtain ⟨l', hl'⟩ : ∃ l', s.listener? l.id = some l' :=
    Option.isSome_iff_exists.mp (List.find?_isSome.mpr ⟨l, hmem, by simp⟩)
  rw [hl', List.inj_on_of_nodup_map h.nodup (List.mem_of_find?_eq_some hl') hmem
    (listener?_id hl')]

/-- Putting a listener back as it was changes nothing. -/
lemma Numbered.put_self (h : s.Numbered) {id : ListenerId} {l : Listener}
    (hl : s.listener? id = some l) : s.put l = s := by
  have hsame : s.listeners.map (fun l' => if l'.id = l.id then l else l') = s.listeners := by
    conv_rhs => rw [← List.map_id' s.listeners]
    refine List.map_congr_left fun l' hmem => ?_
    split
    · next heq =>
        have hl' := (listener?_eq_some_iff h).mpr ⟨hmem, heq.trans (listener?_id hl)⟩
        exact Option.some_inj.mp (hl.symm.trans hl')
    · rfl
  rw [put, hsame]

end Stream

namespace Broadcast

lemma numbered_step {b : Broadcast} (h : b.stream.Numbered) (C : Codec) (event : Event) :
    (b.step C event).stream.Numbered := by
  cases event with
  | operate op => exact h.apply op
  | start => exact h.of_eq rfl rfl
  | preload id a =>
      simp only [step]
      split
      · next p _ =>
          obtain ⟨hids, hnext⟩ := b.stream.ids_stepPreload C p a
          exact h.of_eq hids hnext
      · exact h

lemma numbered_new (name : String) (windowSeconds : Float) (readSize : ℕ) :
    (new name windowSeconds readSize).stream.Numbered :=
  ⟨List.nodup_nil, fun _ hid => absurd hid List.not_mem_nil⟩

/-- No number is taken back. -/
lemma nextListener_le_step (C : Codec) (b : Broadcast) (event : Event) :
    b.stream.nextListener ≤ (b.step C event).stream.nextListener := by
  cases event with
  | start => exact Nat.le_refl _
  | preload id a =>
      simp only [step]
      split
      · next p _ => exact Nat.le_of_eq (b.stream.ids_stepPreload C p a).2.symm
      · exact Nat.le_refl _
  | operate op =>
      have hnext := b.stream.nextListener_apply op
      cases op with
      | join options readSize => exact Nat.le_succ _
      | _ => exact Nat.le_of_eq hnext.symm

end Broadcast

end RewindRelay
