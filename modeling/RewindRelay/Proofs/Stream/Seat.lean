import RewindRelay.Proofs.Store.Place
import RewindRelay.Proofs.Stream.Sound
/-!
# What a seated listener is given

A seat holds a listener some chunks behind the newest one, and its cursor says what the listener
was given last.  Where the cursor cuts the audio of a store in two, everything after the cut is
still to come, and a delivery takes all of that but the newest chunks.

* `Stream.due_of_cursor`, `Stream.due_of_no_cursor` — **what a delivery takes.**
* `Stream.ts_lt_of_mem_due` — it takes nothing that was given before.
* `Stream.deliverTo_spec` — what it does to the listener.
* `Stream.attach_eq` — how a listener gets its seat, and its first audio.
* `Stream.seed_infix` — that first audio is a stretch of the store.
* `Stream.listener?_map`, `Stream.listener?_act` — a listener, found again after an operation.
* `Stream.act_poll_of_attach` — a listener may join by its first poll.
-/

namespace RewindRelay

open Chunk (Ascending)

/-! ## Stretches of a store -/

namespace Store

variable {s : Store}

lemma slice_infix (s : Store) (first last : ℕ) : s.slice first last <:+: s.chunks :=
  (List.drop_suffix _ _).isInfix.trans (List.take_prefix _ _).isInfix

lemma behind_infix (s : Store) (offset length : ℕ) : s.behind offset length <:+: s.chunks := by
  unfold behind onward
  split
  · exact s.slice_infix _ _
  · exact List.nil_infix

/-- A timestamp that cuts the store in two. -/
lemma indexAfter_of_cut {settled rest : List Chunk} (h : s.chunks = settled ++ rest) {ts : Int64}
    (hold : ∀ c ∈ settled, c.ts ≤ ts) (hnew : ∀ c ∈ rest, ts < c.ts) :
    s.indexAfter ts = settled.length := by
  have hrest : rest.takeWhile (fun c => c.ts ≤ ts) = [] := by
    cases rest with
    | nil => rfl
    | cons c rest =>
        have hc : ¬ c.ts ≤ ts := Int64.not_le.mpr (hnew c (by simp))
        simp [hc]
  rw [indexAfter, h, List.takeWhile_append_of_pos (by simpa using hold), hrest, List.append_nil]

lemma slice_of_cut {settled rest : List Chunk} (h : s.chunks = settled ++ rest) (last : ℕ) :
    s.slice settled.length last = rest.take (last - settled.length) := by
  rw [slice, h, List.take_append, List.drop_append]
  rcases Nat.le_total settled.length last with hle | hle
  · simp [List.take_of_length_le hle]
  · simp [Nat.sub_eq_zero_of_le hle]

end Store

/-! ## Deliveries -/

namespace Stream

/-- A listener is due all that comes after its cursor, but for the newest chunks. -/
lemma due_of_cursor {store : Store} {settled rest : List Chunk}
    (h : store.chunks = settled ++ rest) {offset : ℕ} (hoffset : offset < store.length) {ts : Int64}
    (hold : ∀ c ∈ settled, c.ts ≤ ts) (hnew : ∀ c ∈ rest, ts < c.ts) :
    due store ⟨offset, some ts⟩ = rest.take (rest.length - offset) := by
  have hlen : store.length = settled.length + rest.length := by
    rw [Store.length, h, List.length_append]
  simp only [due, Store.indexOfOffset?, if_pos hoffset, Store.indexAfter_of_cut h hold hnew,
    Store.slice_of_cut h]
  congr 1
  omega

/-- A listener without a cursor is due the chunk at its position. -/
lemma due_of_no_cursor {store : Store} {settled rest : List Chunk}
    (h : store.chunks = settled ++ rest) {offset : ℕ} (hrest : rest.length = offset + 1) :
    due store ⟨offset, none⟩ = rest.take (rest.length - offset) := by
  have hlen : store.length = settled.length + rest.length := by
    rw [Store.length, h, List.length_append]
  have hfirst : store.length - 1 - offset = settled.length := by omega
  have hoffset : offset < store.length := by omega
  simp only [due, Store.indexOfOffset?, if_pos hoffset, hfirst, Store.slice_of_cut h]
  congr 1
  omega

lemma due_sublist (store : Store) (seat : Seat) : (due store seat).Sublist store.chunks := by
  unfold due
  split
  · exact List.nil_sublist _
  · exact ((List.drop_sublist _ _).trans (List.take_sublist _ _))

/-- A listener is due nothing that is as old as what it was given last. -/
lemma ts_lt_of_mem_due {store : Store} (ho : Ascending store.chunks) {offset : ℕ} {ts : Int64}
    {c : Chunk} (hc : c ∈ due store ⟨offset, some ts⟩) : ts < c.ts := by
  have hcut := (List.takeWhile_append_dropWhile (p := fun c : Chunk => c.ts ≤ ts)
    (l := store.chunks)).symm
  unfold due at hc
  split at hc
  · cases hc
  · have hslice := Store.slice_of_cut hcut
    simp only [Store.indexAfter, hslice] at hc
    exact ho.ts_lt_of_mem_dropWhile (List.mem_of_mem_take hc)

/-- What a delivery does to a seated listener with an open queue. -/
lemma deliverTo_spec (store : Store) {l : Listener} {offset : ℕ} {cursor : Option Int64}
    (hseat : l.seat = some ⟨offset, cursor⟩) (hopen : l.queue.closed = false) :
    (deliverTo store l).queue.chunks = l.queue.chunks ++ due store ⟨offset, cursor⟩ ∧
      (deliverTo store l).queue.closed = false ∧ (deliverTo store l).phase = l.phase ∧
      (deliverTo store l).seat =
        some ⟨offset, ((due store ⟨offset, cursor⟩).getLast?.map Chunk.ts).or cursor⟩ := by
  simp only [deliverTo, hseat]
  cases hlast : (due store ⟨offset, cursor⟩).getLast? with
  | none =>
      rw [List.getLast?_eq_none_iff.mp hlast]
      exact ⟨(List.append_nil _).symm, hopen, rfl, hseat⟩
  | some last =>
      exact ⟨Queue.chunks_enqueue hopen _, (Queue.closed_enqueue _ _).trans hopen, rfl, rfl⟩

/-! ## The first audio -/

variable {s : Stream}

lemma chunksBehind_infix (s : Stream) (offset length : ℕ) :
    s.chunksBehind offset length <:+: s.store.chunks := by
  unfold chunksBehind
  split
  · exact List.nil_infix
  · exact s.store.behind_infix _ _

lemma seed_infix (s : Stream) (o : ListenOptions) (offset : ℕ) :
    s.seed o offset <:+: s.store.chunks := by
  simp only [seed]
  cases o.timestamp with
  | some ts => exact s.store.behind_infix _ _
  | none => exact s.chunksBehind_infix _ _

lemma seatOffset_le {o : ListenOptions} {offset : ℕ} (h : s.seatOffset o = .ok offset) :
    offset ≤ s.store.length - 1 := by
  unfold seatOffset at h
  split at h
  · obtain ⟨_, -, rfl⟩ := Fault.map_eq_ok_iff.mp h
    exact min_le_right _ _
  · cases h
    exact min_le_right _ _

/-- A listener that wants to stay gets its first audio and a seat. -/
lemma attach_eq {l : Listener} {offset : ℕ} (hd : s.destroyed = false) (hload : s.loading = false)
    (hoffset : s.seatOffset l.options = .ok offset) (hstay : l.options.pumpAndFinish = false) :
    s.attach l = .ok ((s.seed l.options offset).length, { l.enqueue (s.seed l.options offset) with
      phase := .streaming
      seat := some ⟨offset, (s.seed l.options offset).getLast?.map Chunk.ts⟩ }) :=
  attach_eq_ok_iff.mpr ⟨hd, hload, offset, hoffset, rfl, (settle_of_stay hstay _ _).symm⟩

/-! ## Finding a listener again -/

lemma listener?_id {id : ListenerId} {l : Listener} (h : s.listener? id = some l) : l.id = id := by
  have := List.find?_some h
  simpa using this

lemma listener?_map (s : Stream) {f : Listener → Listener} (hf : ∀ l, (f l).id = l.id)
    (id : ListenerId) :
    listener? { s with listeners := s.listeners.map f } id = (s.listener? id).map f := by
  simp only [listener?, List.find?_map]
  congr 2
  funext l
  simp [hf]

/-- Operations on one listener leave the others alone. -/
lemma listener?_act (s : Stream) (id id' : ListenerId) (a : ListenerAction) :
    (s.act id' a).listener? id =
      if id = id' then (s.listener? id).map (a.apply s) else s.listener? id := by
  unfold act serve
  cases hf : s.listener? id' with
  | none =>
      simp only [Option.map_none]
      split_ifs with heq
      · rw [heq, hf]
        rfl
      · rfl
  | some l =>
      have hl : (a.apply s l).id = id' := by rw [Listener.id_apply, listener?_id hf]
      simp only [Option.map_some, put]
      rw [listener?_map s (by intro l'; split <;> simp_all)]
      cases hid : s.listener? id with
      | none => simp
      | some l' =>
          have hl' := listener?_id hid
          simp only [Option.map_some, hl, hl']
          split
          · next heq =>
              subst heq
              rw [hf] at hid
              cases hid
              rfl
          · rfl

lemma listener?_forget (s : Stream) (id : ListenerId) : (s.forget id).listener? id = none := by
  simp [listener?, Stream.forget]

lemma listener?_forget_of_ne (s : Stream) {id k : ListenerId} (hk : id ≠ k) :
    (s.forget k).listener? id = s.listener? id := by
  simp only [listener?, Stream.forget, List.find?_filter]
  congr 1
  funext l
  by_cases hid : l.id = id
  · simp [hid, hk]
  · simp [hid]

lemma act_eq {id : ListenerId} {l : Listener} (hl : s.listener? id = some l) (a : ListenerAction) :
    s.act id a = s.put (a.apply s l) := by
  simp only [act, serve, hl, Option.map_some]

lemma put_put (s : Stream) {l l' : Listener} (h : l'.id = l.id) : (s.put l).put l' = s.put l' := by
  simp only [put, List.map_map]
  congr 2
  funext x
  simp only [Function.comp_apply, h]
  split_ifs <;> simp_all

/-- **A first poll that is not refused is a pump, and then a poll.** -/
lemma act_poll_of_attach {id : ListenerId} {l l' : Listener} {seeded : ℕ}
    (hl : s.listener? id = some l) (hnew : l.phase = .seeding)
    (h : s.attach l = .ok (seeded, l')) (waker : Waker) :
    s.act id (.poll waker) = (s.act id .pump).act id (.poll waker) := by
  have hpump : s.pumpListener l = (.ok seeded, l') := by
    simp only [pumpListener, hnew, if_true, h]
  have hphase : l'.phase = .streaming := by
    obtain ⟨-, -, offset, -, -, rfl⟩ := attach_eq_ok_iff.mp h
    exact phase_settle _ _ _
  have happly : ListenerAction.pump.apply s l = l' := by
    simp only [ListenerAction.apply, hpump]
  have hl' : (s.act id .pump).listener? id = some l' := by
    rw [listener?_act, if_pos rfl, hl, Option.map_some, happly]
  rw [act_eq hl', act_eq hl, act_eq hl, happly, put_put]
  · simp only [ListenerAction.apply, pollListener, hnew, hpump, hphase]
  · exact Listener.id_apply _ _ _

end Stream

end RewindRelay
