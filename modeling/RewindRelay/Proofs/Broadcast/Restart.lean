import RewindRelay.Proofs.Broadcast.Merge
import RewindRelay.Proofs.Broadcast.Passage
/-!
# Listening on after a restart

When a stream starts over, its listeners stay.  Each is held as far behind live as before, but of
audio that is yet to come: until enough of it is there the listener is given nothing, and from then
on one chunk for every chunk that is pushed.  It does not matter what time the new audio bears, nor
that the store is full at some point and old chunks leave it.

* `Broadcast.Disturbs` — what must not happen meanwhile.
* `Broadcast.Restarted` — the invariant: what was given is all but the last few of what was pushed.
* `Broadcast.Restarted.push`, `Broadcast.Restarted.quiet` — **pushes keep it, and all else that does
  not disturb.**
* `Broadcast.Reachable.supply_restart` — **listeners restart cleanly.**
-/

namespace RewindRelay

open Chunk (Ascending)

namespace Broadcast

/-- The event ends the listener, or changes the audio in another way than by a push. -/
def Disturbs (C : Codec) (id : ListenerId) (b : Broadcast) (event : Event) : Prop :=
  event.pushed? = none ∧ (b.Ends id event ∨ (b.step C event).stream.store ≠ b.stream.store)

/-- What others do does not disturb a listener, and neither do pushes. -/
def harmless (id : ListenerId) : Stream.Operation → Bool
  | .push _ | .join _ _ | .reports => true
  | .serve k _ | .drop k => k != id
  | _ => false

lemma not_disturbs_of_harmless {C : Codec} {b : Broadcast} {id : ListenerId}
    {op : Stream.Operation} (h : harmless id op = true) : ¬ Disturbs C id b (.operate op) := by
  rintro ⟨hnone, hends | hstore⟩
  · cases op with
    | serve k a =>
        cases a with
        | leave => exact absurd hends.1 (by simpa [harmless] using h)
        | _ => exact hends
    | drop k => exact absurd hends.1 (by simpa [harmless] using h)
    | disconnectSlow maxBytes => cases h
    | destroy => cases h
    | _ => exact hends
  · refine hstore ?_
    cases op with
    | push c => cases hnone
    | serve k a => exact b.stream.store_act k a
    | drop k => exact b.stream.store_act k .leave
    | join options readSize => rfl
    | reports => rfl
    | _ => cases h

/-- The stream has started over; `pushes` is what was pushed since, and `queued` what the listener
was given. -/
structure Restarted (id : ListenerId) (offset : ℕ) (pushes queued : List Chunk) (b : Broadcast) :
    Prop where
  listener : ∃ l, b.stream.listener? id = some l ∧
    l.seat = some ⟨offset, queued.getLast?.map Chunk.ts⟩
  room : offset < b.stream.store.capacity
  audio : b.stream.store.chunks = pushes.rtake b.stream.store.capacity
  queued_eq : queued = pushes.take (pushes.length - offset)

variable {C : Codec} {b : Broadcast} {id : ListenerId} {event : Event} {offset : ℕ}
  {pushes queued : List Chunk}

/-- What is due after a push: the chunk at the offset, as soon as there is one. -/
lemma Restarted.due_push (h : Restarted id offset pushes queued b) {c : Chunk} {store : Store}
    (hasc : Ascending (pushes ++ [c]))
    (haudio : store.chunks = (pushes ++ [c]).rtake b.stream.store.capacity) :
    queued ++ Stream.due store ⟨offset, queued.getLast?.map Chunk.ts⟩ =
      (pushes ++ [c]).take ((pushes ++ [c]).length - offset) := by
  have hroom := h.room
  set rest := (pushes ++ [c]).drop (pushes.length - offset) with hrest
  have hqueued : queued = (pushes ++ [c]).take (pushes.length - offset) := by
    rw [h.queued_eq, List.take_append_of_le_length (by omega)]
  have hsplit : pushes ++ [c] = queued ++ rest := by
    rw [hqueued, List.take_append_drop]
  have hlen : (pushes ++ [c]).length = pushes.length + 1 := List.length_append
  have hrestlen : rest.length = pushes.length + 1 - (pushes.length - offset) := by
    rw [hrest, List.length_drop, hlen]
  rcases Nat.lt_or_ge pushes.length offset with hfew | hmany
  · -- the store does not reach back to the offset yet
    have hshort : ¬ offset < store.length := by
      rw [Store.length, haudio, Store.rtake_eq_self (by omega)]
      omega
    have hdue : Stream.due store ⟨offset, queued.getLast?.map Chunk.ts⟩ = [] := by
      simp only [Stream.due, Store.indexOfOffset?, if_neg hshort]
    rw [hdue, List.append_nil, hqueued, hlen]
    congr 1
    omega
  · -- what was given is behind the rest, and the rest is still in the store
    have hcut : store.chunks = queued.rtake (b.stream.store.capacity - rest.length) ++ rest := by
      rw [haudio, hsplit, Store.rtake_append _ _ (by omega)]
    have hdue : Stream.due store ⟨offset, queued.getLast?.map Chunk.ts⟩ =
        rest.take (rest.length - offset) := by
      rw [hsplit] at hasc
      obtain ⟨holder, -, hnewer⟩ := Chunk.ascending_append.mp hasc
      cases hlast : queued.getLast? with
      | none =>
          have hnil := congrArg List.length (List.getLast?_eq_none_iff.mp hlast)
          rw [hqueued, List.length_take, hlen, List.length_nil] at hnil
          exact Stream.due_of_no_cursor hcut (by omega)
      | some last =>
          refine Stream.due_of_cursor hcut ?_ (fun a ha => ?_) fun a ha => ?_
          · rw [Store.length, hcut, List.length_append]
            omega
          · exact holder.ts_le_getLast? (List.mem_of_mem_drop ha) hlast
          · exact hnewer last (List.mem_of_getLast? hlast) a ha
    have hlead : queued.length ≤ queued.length + rest.length - offset := by omega
    have hmore : queued.length + rest.length - offset - queued.length = rest.length - offset := by
      omega
    rw [hdue, hsplit, List.take_append, List.length_append, List.take_of_length_le hlead, hmore]

lemma Restarted.push (h : Restarted id offset pushes queued b) (hb : Reachable C b) {c : Chunk}
    (hasc : Ascending (pushes ++ [c])) :
    Restarted id offset (pushes ++ [c]) (queued ++ b.given C id (.operate (.push c)))
      (b.step C (.operate (.push c))) := by
  obtain ⟨l, hl, hseat⟩ := h.listener
  obtain ⟨hplace, haudio⟩ := Store.insert_newer h.audio hasc
  obtain ⟨l', hl', hgiven, -, -, -, hmoved⟩ := push_served (C := C) hb.regular hl hseat hplace
  have halive := hb.regular.alive_of_seat hl (by rw [Listener.isSeated, hseat]; rfl)
  have hstore : (b.step C (.operate (.push c))).stream.store = (b.stream.store.insert c).2 := by
    simp only [step, Stream.Operation.apply, Stream.push_of_appended halive hplace]
    rfl
  refine ⟨⟨l', hl', ?_⟩, ?_, ?_, ?_⟩
  · rw [hmoved, hgiven, List.getLast?_append, Option.map_or]
  · rw [hstore, Store.capacity_insert]
    exact h.room
  · rw [hstore, Store.capacity_insert]
    exact haudio
  · rw [hgiven]
    exact h.due_push hasc haudio

/-- **What does not disturb gives the listener nothing, and leaves it where it is.** -/
lemma Restarted.quiet (h : Restarted id offset pushes queued b) (hb : Reachable C b)
    (hnone : event.pushed? = none) (hevent : ¬ Disturbs C id b event) :
    Restarted id offset pushes (queued ++ b.given C id event) (b.step C event) := by
  obtain ⟨hends, hstore⟩ := not_or.mp fun hor => hevent ⟨hnone, hor⟩
  rw [not_not] at hstore
  obtain ⟨l, hl, hseat⟩ := h.listener
  have hl₀ := hb.regular.listener id l hl
  have hstreams := (hl₀.seated (by rw [Listener.isSeated, hseat]; rfl)).1
  have hpassage := passage_step (C := C) hb.regular id event
  have hkeep : ∀ l', (b.step C event).stream.listener? id = some l' →
      l'.seat = some ⟨offset, queued.getLast?.map Chunk.ts⟩ →
      Restarted id offset pushes (queued ++ []) (b.step C event) := by
    intro l' hl' hseat'
    rw [List.append_nil]
    exact ⟨⟨l', hl', hseat'⟩, by rw [hstore]; exact h.room, by rw [hstore]; exact h.audio,
      h.queued_eq⟩
  rw [hl] at hpassage
  generalize hl' : (b.step C event).stream.listener? id = l?' at hpassage
  generalize b.given C id event = given at hpassage ⊢
  cases hpassage with
  | passes same stays => exact hkeep _ hl' (same.seat.trans hseat)
  | joins new joined seats => rw [new] at hstreams; cases hstreams
  | refused new => rw [new] at hstreams; cases hstreams
  | served pushed alive place seated phase closed lastCall moved =>
      rw [pushed] at hnone
      cases hnone
  | forgets renewed =>
      -- there is no audio, so nothing was pushed, and there is nothing to forget
      have hnil : pushes = [] := by
        have haudio := h.audio
        rw [← hstore, renewed.step.1] at haudio
        by_contra hne
        have hlen := congrArg List.length haudio
        have hpos := List.length_pos_iff.mpr hne
        have hroom := h.room
        rw [List.length_nil, List.rtake, List.length_drop, hstore] at hlen
        omega
      have hqueued : queued = [] := by rw [h.queued_eq, hnil, List.take_nil]
      refine hkeep _ hl' ?_
      rw [Listener.forgetCursor, hseat, hqueued]
      rfl
  | leaves phase seat closed spent ends => exact absurd ends hends
  | departs ends => exact absurd ends hends

/-- A stream that has just started over. -/
lemma StartsOver.restarted (hover : b.StartsOver C event) {l : Listener} {seat : Seat}
    (hl : b.stream.listener? id = some l) (hseat : l.seat = some seat)
    (hroom : seat.offset < (b.step C event).stream.store.capacity) :
    Restarted id seat.offset [] [] (b.step C event) := by
  obtain ⟨hnil, hlisteners⟩ := hover.step
  have hl' : (b.step C event).stream.listener? id = some l.forgetCursor := by
    have hmap := Stream.listener?_map b.stream (f := Listener.forgetCursor) (fun _ => rfl) id
    rw [hl, Stream.listener?] at hmap
    rw [Stream.listener?, hlisteners, hmap, Option.map_some]
  refine ⟨⟨l.forgetCursor, hl', ?_⟩, hroom, hnil.trans (List.rtake_nil _).symm, List.take_nil.symm⟩
  rw [Listener.forgetCursor, hseat]
  rfl

/-- **Listeners restart cleanly.**  A listener is held some chunks behind live, and the stream
starts over, with more room than that.  Whatever comes then, as long as it does not disturb: of the
chunks that are pushed, in order of time, all but the last few are queued for the listener, each
once and in order, and nothing else is.  So it waits until the audio reaches back to where it is
held, and from then on it gets a chunk for every chunk. -/
theorem Reachable.supply_restart (hb : Reachable C b) {l : Listener} {seat : Seat}
    (hl : b.stream.listener? id = some l) (hseat : l.seat = some seat)
    (hover : b.StartsOver C event)
    (hroom : seat.offset < (b.step C event).stream.store.capacity) (events : List Event)
    (hasc : Ascending (pushed events))
    (hevents : Never (Broadcast.step C) (b.step C event) events (Disturbs C id)) :
    supply C id (b.step C event) events =
      (pushed events).take ((pushed events).length - seat.offset) := by
  suffices hrestarted : Restarted id seat.offset (pushed events)
      (supply C id (b.step C event) events) ((b.step C event).run C events) from
    hrestarted.queued_eq
  induction events using List.reverseRecOn with
  | nil => exact hover.restarted hl hseat hroom
  | append_singleton events next ih =>
      have hnow : Reachable C ((b.step C event).run C events) :=
        reachable_run C (.step event hb) events
      rw [pushed_append] at hasc
      have hpast := ih (Chunk.ascending_append.mp hasc).1 fun past e hpre =>
        hevents past e (hpre.trans (List.prefix_append _ _))
      rw [run_append, supply_concat, pushed_append]
      cases hnext : next.pushed? with
      | none =>
          have hnil : pushed [next] = [] := by simp [pushed, hnext]
          rw [hnil, List.append_nil]
          exact hpast.quiet hnow hnext (hevents events next (List.prefix_refl _))
      | some c =>
          obtain rfl : next = .operate (.push c) := by
            unfold Event.pushed? at hnext
            split at hnext
            · cases hnext
              rfl
            · cases hnext
          exact hpast.push hnow hasc

/-- A listener that is held one chunk behind live, on a stream of two chunks. -/
def rewound : Broadcast :=
  run .json (new "main" 2 65536)
    [.operate (.updateVitals { streamKey := "a", chunkDuration := 1 }),
      .operate (.push (second 8)), .operate (.push (second 9)),
      .operate (.join (.rewound 1) 65536), .operate (.serve 0 .pump)]

/-- Audio of long ago, which makes the stream full and more, while another listener joins. -/
def older : List Event :=
  [.operate (.push (second 1)), .operate (.join .live 65536), .operate (.push (second 2)),
    .operate (.serve 1 .pump), .operate (.push (second 3)), .operate (.push (second 4))]

theorem supply_rewound :
    supply .json 0 (rewound.step .json (.operate .reset)) older =
      [second 1, second 2, second 3] := by
  have hoffset : ((rewound.stream.listener? 0).bind Listener.seat).map Seat.offset = some 1 := by
    decide +kernel
  obtain ⟨seat, hfound, hseat⟩ := Option.map_eq_some_iff.mp hoffset
  obtain ⟨l, hl, hlseat⟩ := Option.bind_eq_some_iff.mp hfound
  have hroom : seat.offset < (rewound.step .json (.operate .reset)).stream.store.capacity := by
    rw [hseat]
    decide +kernel
  have hharmless : ∀ b, ∀ e ∈ older, ¬ Disturbs .json 0 b e := by
    intro b e he
    simp only [older, List.mem_cons, List.not_mem_nil, or_false] at he
    rcases he with rfl | rfl | rfl | rfl | rfl | rfl <;> exact not_disturbs_of_harmless rfl
  have hover : StartsOver .json rewound (.operate .reset) := trivial
  have hsupply := Reachable.supply_restart (reachable_run .json (.new "main" 2 65536) _) hl hlseat
    hover hroom older (by decide +kernel) fun past e hpre => hharmless _ e (hpre.subset (by simp))
  rw [hseat] at hsupply
  exact hsupply

end Broadcast

end RewindRelay
