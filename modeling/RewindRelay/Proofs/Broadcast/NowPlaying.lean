import RewindRelay.Proofs.Broadcast.Run
/-!
# What listeners notice of a push

A pushed chunk may become the newest one, go in front of the oldest, or be turned away, and the
store decides which.  Only a chunk that became the newest concerns anybody else: it is delivered,
and it may say what is playing.  Every other push is a matter between the source and the store.

* `Stream.Answered`, `Stream.Sound.answered` — **all that a push can do, by its answer.**
* `Stream.Answered.frame` — unless it is appended, nobody but the store notices.
* `Stream.Discreet` — both, and that what is playing was announced last.
* `Broadcast.announcement`, `Broadcast.announced` — the metadata of appended chunks, along a run.
* `Broadcast.nowPlaying_step` — an event that announces nothing leaves what is playing as it was.
* `Broadcast.nowPlaying_run` — **what is playing was announced last.**
-/

namespace RewindRelay

/-! ## In the store -/

namespace Store

variable {s : Store} {c : Chunk}

/-- In front of a full store a chunk leaves at once. -/
lemma insert_of_full (hplace : s.placement c.ts = .prepended) (hfull : s.length = s.capacity) :
    s.insert c = (.prepended, { s with
      counters := { s.counters with
        inserted := s.counters.inserted + 1
        evicted := s.counters.evicted + 1 } }) := by
  have hsurplus : s.chunks.length + 1 - s.capacity = 1 := by
    rw [← hfull, length]
    omega
  simp only [insert, hplace, evict, length, List.length_cons, hsurplus, List.drop_succ_cons,
    List.drop_zero]

lemma insert_of_room (hplace : s.placement c.ts = .prepended) (hroom : s.length < s.capacity) :
    s.insert c = (.prepended, { s with
      chunks := c :: s.chunks
      counters := { s.counters with inserted := s.counters.inserted + 1 } }) := by
  have hsurplus : s.chunks.length + 1 - s.capacity = 0 := Nat.sub_eq_zero_of_le hroom
  simp only [insert, hplace, evict, length, List.length_cons, hsurplus, List.drop_zero,
    Nat.add_zero]

lemma insert_of_duplicate (hplace : s.placement c.ts = .duplicate) :
    s.insert c = (.duplicate, { s with
      counters := { s.counters with duplicates := s.counters.duplicates + 1 } }) := by
  simp only [insert, hplace]

lemma insert_of_outOfOrder (hplace : s.placement c.ts = .outOfOrder) :
    s.insert c = (.outOfOrder, { s with
      counters := { s.counters with outOfOrder := s.counters.outOfOrder + 1 } }) := by
  simp only [insert, hplace]

end Store

/-! ## By the answer -/

namespace Stream

/-- What a push answers, and the stream after it. -/
inductive Answered (s : Stream) (c : Chunk) : Except StreamError InsertOutcome × Stream → Prop
  /-- A stream that is gone takes nothing. -/
  | destroyed (gone : s.destroyed = true) : Answered s c (.error (.destroyed s.name), s)
  /-- A chunk that has no place is counted. -/
  | outOfOrder (alive : s.destroyed = false) (place : s.store.placement c.ts = .outOfOrder) :
    Answered s c (.error (.outOfOrder c.ts), { s with
      store := { s.store with
        counters := { s.store.counters with outOfOrder := s.store.counters.outOfOrder + 1 } } })
  /-- A chunk that is there already is counted. -/
  | duplicate (alive : s.destroyed = false) (place : s.store.placement c.ts = .duplicate) :
    Answered s c (.ok .duplicate, { s with
      store := { s.store with
        counters := { s.store.counters with duplicates := s.store.counters.duplicates + 1 } } })
  /-- In front of a full store a chunk is counted, in and out. -/
  | passed (alive : s.destroyed = false) (place : s.store.placement c.ts = .prepended)
    (full : s.store.length = s.store.capacity) :
    Answered s c (.ok .prepended, { s with
      store := { s.store with
        counters := { s.store.counters with
          inserted := s.store.counters.inserted + 1
          evicted := s.store.counters.evicted + 1 } } })
  /-- In front of any other store it is counted and stored. -/
  | prepended (alive : s.destroyed = false) (place : s.store.placement c.ts = .prepended)
    (room : s.store.length < s.store.capacity) :
    Answered s c (.ok .prepended, { s with
      store := { s.store with
        chunks := c :: s.store.chunks
        counters := { s.store.counters with inserted := s.store.counters.inserted + 1 } } })
  /-- Behind the newest chunk it is stored, announced and delivered. -/
  | appended (alive : s.destroyed = false) (place : s.store.placement c.ts = .appended) :
    Answered s c (.ok .appended,
      fanOut { s with
        store := (s.store.insert c).2
        nowPlaying := c.metadata.or s.nowPlaying })

variable {s : Stream} {c : Chunk}

/-- The store decides what a push answers. -/
lemma push_of_alive (alive : s.destroyed = false) (c : Chunk) :
    s.push c = match s.store.insert c with
      | (.appended, store) => (.ok .appended, fanOut { s with store, nowPlaying := s.playing c })
      | (.prepended, store) => (.ok .prepended, { s with store })
      | (.duplicate, store) => (.ok .duplicate, { s with store })
      | (.outOfOrder, store) => (.error (.outOfOrder c.ts), { s with store }) := by
  rw [push, if_neg (by simp [alive]), onStore_eq]
  rcases s.store.insert c with ⟨_ | _ | _ | _, store⟩ <;> rfl

/-- **All that a push can do**, by its answer. -/
theorem Sound.answered (h : s.Sound) (c : Chunk) : Answered s c (s.push c) := by
  cases hd : s.destroyed with
  | true =>
      have hpush : s.push c = (.error (.destroyed s.name), s) := if_pos hd
      rw [hpush]
      exact .destroyed hd
  | false =>
      cases hplace : s.store.placement c.ts with
      | appended =>
          rw [push_of_appended hd hplace]
          exact .appended hd hplace
      | prepended =>
          rw [push_of_alive hd]
          rcases Nat.eq_or_lt_of_le h.bounded with hfull | hroom
          · rw [Store.insert_of_full hplace hfull]
            exact .passed hd hplace hfull
          · rw [Store.insert_of_room hplace hroom]
            exact .prepended hd hplace hroom
      | duplicate =>
          rw [push_of_alive hd, Store.insert_of_duplicate hplace]
          exact .duplicate hd hplace
      | outOfOrder =>
          rw [push_of_alive hd, Store.insert_of_outOfOrder hplace]
          exact .outOfOrder hd hplace

/-- Unless the chunk is appended, nobody but the store notices. -/
lemma Answered.frame {answer : Except StreamError InsertOutcome} {s' : Stream}
    (h : Answered s c (answer, s')) (hnot : answer ≠ .ok .appended) :
    s' = { s with store := s'.store } := by
  cases h with
  | appended alive place => exact absurd rfl hnot
  | destroyed gone => rfl
  | outOfOrder alive place => rfl
  | duplicate alive place => rfl
  | passed alive place full => rfl
  | prepended alive place room => rfl

/-- A stream that tells of no push but those that are appended.  `announced` is what these have
announced so far. -/
structure Discreet (s : Stream) (announced : List Metadata) : Prop where
  answered : ∀ c, Answered s c (s.push c)
  /-- Unless it is appended, a push leaves everything but the store as it was. -/
  frame : ∀ c, (s.push c).1 ≠ .ok .appended →
    (s.push c).2 = { s with store := (s.push c).2.store }
  nowPlaying : s.nowPlaying = announced.getLast?

lemma Sound.discreet (h : s.Sound) {announced : List Metadata}
    (hplaying : s.nowPlaying = announced.getLast?) : s.Discreet announced where
  answered := h.answered
  frame := by
    intro c hnot
    exact (h.answered c).frame hnot
  nowPlaying := hplaying

end Stream

/-! ## Along a run -/

namespace Broadcast

/-- What an event announces: the metadata of a chunk that is pushed and appended. -/
def announcement (b : Broadcast) : Event → Option Metadata
  | .operate (.push c) =>
    match (b.stream.push c).1 with
    | .ok .appended => c.metadata
    | _ => none
  | _ => none

/-- All that is announced in a run, in order. -/
def announced (C : Codec) : Broadcast → List Event → List Metadata
  | _, [] => []
  | b, event :: events => (b.announcement event).toList ++ announced C (b.step C event) events

variable {C : Codec} {b : Broadcast}

lemma announced_append (b : Broadcast) (first second : List Event) :
    announced C b (first ++ second) =
      announced C b first ++ announced C (b.run C first) second := by
  induction first generalizing b with
  | nil => rfl
  | cons e first ih =>
      rw [List.cons_append, announced, announced, ih, List.append_assoc]
      rfl

end Broadcast

namespace Stream

variable {s : Stream}

lemma nowPlaying_updateVitals (s : Stream) (v : Vitals) :
    (s.updateVitals v).2.nowPlaying = s.nowPlaying := by
  rw [updateVitals_frame]

lemma nowPlaying_act (s : Stream) (id : ListenerId) (a : ListenerAction) :
    (s.act id a).nowPlaying = s.nowPlaying := by
  rw [act_frame]

/-- What a preload brings was on air before. -/
lemma nowPlaying_stepPreload (C : Codec) (s : Stream) (p : Preload) (a : PreloadAction) :
    (s.stepPreload C p a).2.nowPlaying = s.nowPlaying := by
  have hspec := stepPreload_spec C s p a
  generalize s.stepPreload C p a = result at hspec
  cases hspec with
  | waits loader same => rfl
  | header hd loader decoded usable => exact nowPlaying_updateVitals s hd.vitals
  | chunk c loader summary decoded alive same => rfl
  | ends => rfl

end Stream

namespace Broadcast

variable {C : Codec} {b : Broadcast}

lemma nowPlaying_push (h : b.stream.Sound) (c : Chunk) :
    (b.stream.push c).2.nowPlaying =
      (b.announcement (.operate (.push c))).or b.stream.nowPlaying := by
  have hanswered := h.answered c
  rw [announcement]
  generalize b.stream.push c = result at hanswered
  cases hanswered <;> rfl

/-- An event that announces nothing leaves what is playing as it was. -/
lemma nowPlaying_step (h : b.stream.Sound) (C : Codec) (event : Event) :
    (b.step C event).stream.nowPlaying = (b.announcement event).or b.stream.nowPlaying := by
  cases event with
  | start => rfl
  | preload id a =>
      simp only [step]
      split
      · exact Stream.nowPlaying_stepPreload C b.stream _ a
      · rfl
  | operate op =>
      cases op with
      | push c => exact nowPlaying_push h c
      | updateVitals v => exact Stream.nowPlaying_updateVitals b.stream v
      | serve id a => exact Stream.nowPlaying_act b.stream id a
      | drop id => exact Stream.nowPlaying_act b.stream id .leave
      | destroy =>
          simp only [step, Stream.Operation.apply, Stream.destroy]
          split <;> rfl
      | setWindow _ | adjust | reset | join _ _ | reports | disconnectSlow _ => rfl

/-- What is playing was announced last, or was playing when the run began. -/
lemma nowPlaying_eq (hb : Reachable C b) (events : List Event) :
    (b.run C events).stream.nowPlaying =
      (announced C b events).getLast?.or b.stream.nowPlaying := by
  induction events using List.reverseRecOn with
  | nil => rfl
  | append_singleton events event ih =>
      have hstep := nowPlaying_step (reachable_run C hb events).sound C event
      rw [run_append, announced_append]
      refine hstep.trans ?_
      rw [ih, announced, announced, List.append_nil, List.getLast?_append]
      cases (b.run C events).announcement event <;> rfl

/-- **Only an appended push is noticed.**  In every stream in use a push does what its answer says,
and leaves everything but the store as it was unless it is appended; and what is playing was
announced by the last chunk with metadata that was pushed and appended, whatever has happened
since. -/
theorem nowPlaying_run (C : Codec) (name : String) (windowSeconds : Float) (readSize : ℕ)
    (events : List Event) :
    ((new name windowSeconds readSize).run C events).stream.Discreet
      (announced C (new name windowSeconds readSize) events) := by
  have hnew : Reachable C (new name windowSeconds readSize) := .new name windowSeconds readSize
  refine (reachable_run C hnew events).sound.discreet ?_
  rw [nowPlaying_eq hnew events]
  exact Option.or_none

end Broadcast

end RewindRelay
