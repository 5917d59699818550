import RewindRelay.Proofs.Broadcast.Final
import RewindRelay.Proofs.Broadcast.Wake
/-!
# Slow listeners

Audio piles up for a listener that does not keep up, and housekeeping ends those for whom too much
of it waits.  They are judged by the counter of their queue, so the counter has to be exact.  First
they are picked out of the table of the stream, then they are taken away one by one, by their
numbers, so a number has to mean one listener.

* `Queue.Counted`, `Listener.InUse.counted` — **the counter is exact** for every listener in use.
* `Stream.Dismissal` — all that a sweep of slow listeners does, and all that it leaves alone.
* `Stream.dismissal_disconnectSlow` — **a sweep does that** wherever numbers and counters are exact.
* `Broadcast.IsPast.found_eq` — whoever is over finds nothing but the end, in every run.
* `Broadcast.Reachable.dismissal` — **so it is in every stream in use.**
-/

namespace RewindRelay

open Chunk (totalSize totalSize_append)

/-! ## The counter of a queue -/

namespace Queue

variable {q : Queue}

/-- The counter says how many bytes wait in the queue. -/
def Counted (q : Queue) : Prop := q.queuedBytes = totalSize q.chunks

namespace Counted

lemma wake (h : q.Counted) : q.wake.Counted := by
  simpa only [Counted, queuedBytes_wake, chunks_wake] using h

lemma enqueue (h : q.Counted) (cs : List Chunk) : (q.enqueue cs).Counted := by
  unfold Queue.enqueue
  split
  · exact h
  · apply wake
    simp only [Counted, totalSize_append, h.symm]

lemma finish (h : q.Counted) : q.finish.Counted := wake h

lemma close (q : Queue) : q.close.Counted := by
  apply wake
  rfl

lemma read (h : q.Counted) (size : ℕ) (waker : Option Waker) :
    (q.read size waker).2.Counted := by
  have hreads := reads_read h size waker
  generalize (q.read size waker).1 = outcome at hreads
  generalize (q.read size waker).2 = q' at hreads ⊢
  cases hreads with
  | shut closed => exact h
  | drained isOpen empty last => exact h
  | idle isOpen empty last waker => exact h
  | data isOpen front batch waiting counted =>
      rw [Counted, front, totalSize_append, counted] at h
      exact Nat.add_left_cancel h

end Counted

end Queue

namespace Listener

variable {l : Listener}

lemma counted_attach (h : l.queue.Counted) {s : Stream} {seeded : ℕ} {l' : Listener}
    (hattach : s.attach l = .ok (seeded, l')) : l'.queue.Counted := by
  obtain ⟨chunks, heq | heq⟩ := Stream.queue_attach hattach <;> rw [heq]
  · exact (h.enqueue _).finish
  · exact h.enqueue _

lemma counted_pump (h : l.queue.Counted) (s : Stream) : (s.pumpListener l).2.queue.Counted := by
  unfold Stream.pumpListener
  split
  · split
    · next hattach => exact counted_attach h hattach
    · exact h
  · exact h

lemma counted_poll (h : l.queue.Counted) (s : Stream) (waker : Waker) :
    (s.pollListener waker l).2.queue.Counted := by
  have hpump := counted_pump h s
  unfold Stream.pollListener
  split
  · exact h
  · exact h.read _ _
  · split
    · next heq =>
        rw [heq] at hpump
        exact hpump.read _ _
    all_goals
      next heq =>
        rw [heq] at hpump
        exact hpump

/-- Every call keeps the counter exact. -/
lemma counted_call (h : l.queue.Counted) (call : Call) : (call.apply l).queue.Counted := by
  cases call with
  | finish => exact h.finish
  | close => exact Queue.Counted.close _
  | place seat => exact h
  | act s a =>
      cases a with
      | pump => exact counted_pump h s
      | poll waker => exact counted_poll h s waker
      | read size =>
          simp only [Call.apply, Stream.ListenerAction.apply, Listener.read]
          split
          · exact h
          · exact h.read _ _
          · exact h
      | enqueue cs => exact h.enqueue cs
      | takeInterval => exact h
      | leave =>
          simp only [Call.apply, Stream.ListenerAction.apply, Listener.close]
          split
          · exact h
          · exact Queue.Counted.close _

/-- **The counter is exact** for every listener in use. -/
theorem InUse.counted (h : l.InUse) : l.queue.Counted := by
  obtain ⟨id, options, readSize, calls, rfl⟩ := h
  induction calls using List.reverseRecOn with
  | nil => rfl
  | append_singleton calls call ih =>
      rw [callAll_append]
      exact counted_call ih call

end Listener

/-! ## Sweeps -/

namespace Stream

variable {s : Stream} {id : ListenerId} {l : Listener} {maxBytes : ℕ}

/-- All that a sweep of slow listeners does when it ends these. -/
structure Dismissal (s : Stream) (maxBytes : ℕ) (ended : List ListenerId) (s' : Stream) :
    Prop where
  /-- They are those in the table for whom too many bytes wait, each once. -/
  mem_iff : ∀ id, id ∈ ended ↔ ∃ l ∈ s.seated, l.id = id ∧ maxBytes < totalSize l.queue.chunks
  nodup : ended.Nodup
  /-- They are out of the table, their audio is dropped, and they read the end. -/
  gone : ∀ id ∈ ended, ∃ l, s'.listener? id = some l ∧ l.seat = none ∧ l.queue.chunks = [] ∧
    l.queuedBytes = 0 ∧ ∀ size, (l.read size).1 = .finished
  /-- The others are as they were, queue, cursor, offset and statistics. -/
  others : ∀ id ∉ ended, s'.listener? id = s.listener? id
  table : s'.seated = s.seated.filter fun l => l.id ∉ ended
  rest : s' = { s with listeners := s'.listeners }
  within : ∀ l ∈ s'.seated, l.queuedBytes = totalSize l.queue.chunks ∧ l.queuedBytes ≤ maxBytes
  again : s'.disconnectSlow maxBytes = ([], s')
  /-- Once they are picked out, they may be taken away one by one in any order. -/
  oneByOne : ∀ order : List ListenerId, order.Perm ended → s.visit Listener.unseat order = s'

lemma isSlow_iff (h : l.queue.Counted) :
    isSlow maxBytes l = true ↔ l.isSeated = true ∧ maxBytes < totalSize l.queue.chunks := by
  rw [isSlow, Bool.and_eq_true, decide_eq_true_eq, Listener.queuedBytes, h]

/-- Who is ended is told by the listener itself, for no other one has its number. -/
lemma id_mem_disconnectSlow (h : s.Numbered) (hl : l ∈ s.listeners) :
    l.id ∈ (s.disconnectSlow maxBytes).1 ↔ isSlow maxBytes l = true := by
  rw [mem_disconnectSlow]
  constructor
  · rintro ⟨l', hl', hid, hslow⟩
    rwa [← List.inj_on_of_nodup_map h.nodup hl' hl hid]
  · intro hslow
    exact ⟨l, hl, rfl, hslow⟩

lemma listener?_disconnectSlow (s : Stream) (maxBytes : ℕ) (id : ListenerId) :
    (s.disconnectSlow maxBytes).2.listener? id =
      (s.listener? id).map fun l => if isSlow maxBytes l then l.unseat else l := by
  refine s.listener?_map (fun l => ?_) id
  split <;> rfl

/-- Whoever is still in the table was there before and is not slow. -/
lemma seated_disconnectSlow (s : Stream) (maxBytes : ℕ) :
    (s.disconnectSlow maxBytes).2.seated = s.seated.filter fun l => !isSlow maxBytes l := by
  simp only [seated, disconnectSlow]
  induction s.listeners with
  | nil => rfl
  | cons first rest ih =>
      cases hslow : isSlow maxBytes first with
      | true =>
          -- it had a seat, and has none now
          have hseated : first.isSeated = true := by
            rw [isSlow, Bool.and_eq_true] at hslow
            exact hslow.1
          have hgone : first.unseat.isSeated = false := rfl
          simp [hslow, hseated, hgone, ih]
      | false => cases hseated : first.isSeated <;> simp [hslow, hseated, ih]

/-- A sweep leaves nobody whom the next one would end. -/
lemma disconnectSlow_again (s : Stream) (maxBytes : ℕ) :
    (s.disconnectSlow maxBytes).2.disconnectSlow maxBytes =
      ([], (s.disconnectSlow maxBytes).2) := by
  have hnone : ∀ l ∈ (s.disconnectSlow maxBytes).2.listeners, isSlow maxBytes l = false := by
    intro l hl
    obtain ⟨l', -, rfl⟩ := List.mem_map.mp hl
    split
    · rfl
    · next hslow => exact Bool.eq_false_of_not_eq_true hslow
  generalize (s.disconnectSlow maxBytes).2 = s' at hnone ⊢
  have hfilter : s'.listeners.filter (isSlow maxBytes) = [] :=
    List.filter_eq_nil_iff.mpr fun l hl => by simp [hnone l hl]
  have hmap : s'.listeners.map (fun l => if isSlow maxBytes l then l.unseat else l) =
      s'.listeners := by
    conv_rhs => rw [← List.map_id' s'.listeners]
    exact List.map_congr_left fun l hl => by simp [hnone l hl]
  simp only [disconnectSlow, hfilter, hmap, List.map_nil]

/-- **What a sweep does**, wherever numbers and counters are exact. -/
theorem dismissal_disconnectSlow (h : s.Regular) (hcounted : ∀ l ∈ s.listeners, l.queue.Counted)
    (maxBytes : ℕ) :
    Dismissal s maxBytes (s.disconnectSlow maxBytes).1 (s.disconnectSlow maxBytes).2 where
  mem_iff := by
    intro id
    rw [mem_disconnectSlow]
    constructor
    · rintro ⟨l, hl, hid, hslow⟩
      obtain ⟨hseated, hmany⟩ := (isSlow_iff (hcounted l hl)).mp hslow
      exact ⟨l, List.mem_filter.mpr ⟨hl, hseated⟩, hid, hmany⟩
    · rintro ⟨l, hl, hid, hmany⟩
      obtain ⟨hl, hseated⟩ := List.mem_filter.mp hl
      exact ⟨l, hl, hid, (isSlow_iff (hcounted l hl)).mpr ⟨hseated, hmany⟩⟩
  nodup := h.numbered.nodup.sublist (List.filter_sublist.map _)
  gone := by
    intro id hid
    obtain ⟨l, hl, rfl, hslow⟩ := (mem_disconnectSlow s id maxBytes).mp hid
    have hfound := (listener?_eq_some_iff h.numbered).mpr ⟨hl, rfl⟩
    have hseated := ((isSlow_iff (hcounted l hl)).mp hslow).1
    obtain ⟨hphase, -, -⟩ := (h.listener l.id l hfound).seated hseated
    have hclosed : l.unseat.queue.closed = true := Queue.closed_wake _
    refine ⟨l.unseat, ?_, rfl, Queue.chunks_wake _, Queue.queuedBytes_wake _, fun size => ?_⟩
    · rw [listener?_disconnectSlow, hfound, Option.map_some, if_pos hslow]
    · have hnot : l.unseat.phase ≠ .seeding := by
        show l.phase ≠ .seeding
        simp [hphase]
      exact (finds_of_closed (s := s) hnot hclosed size 0).1
  others := by
    intro id hid
    rw [listener?_disconnectSlow]
    cases hl : s.listener? id with
    | none => rfl
    | some l =>
        obtain ⟨hmem, rfl⟩ := (listener?_eq_some_iff h.numbered).mp hl
        rw [id_mem_disconnectSlow h.numbered hmem] at hid
        rw [Option.map_some, if_neg hid]
  table := by
    rw [seated_disconnectSlow]
    refine List.filter_congr fun l hl => ?_
    have hslow : l.id ∈ (s.disconnectSlow maxBytes).1 ↔ isSlow maxBytes l = true :=
      id_mem_disconnectSlow h.numbered (List.mem_of_mem_filter hl)
    rw [Bool.eq_iff_iff]
    simp [hslow]
  rest := rfl
  within := by
    intro l hl
    rw [seated_disconnectSlow] at hl
    obtain ⟨hl, hnot⟩ := List.mem_filter.mp hl
    obtain ⟨hl, hseated⟩ := List.mem_filter.mp hl
    have hbytes : l.queuedBytes = totalSize l.queue.chunks := hcounted l hl
    refine ⟨hbytes, ?_⟩
    by_contra hmany
    rw [Nat.not_le, hbytes] at hmany
    simp [(isSlow_iff (hcounted l hl)).mpr ⟨hseated, hmany⟩] at hnot
  again := disconnectSlow_again s maxBytes
  oneByOne := by
    intro order horder
    have hnodup : (s.disconnectSlow maxBytes).1.Nodup :=
      h.numbered.nodup.sublist (List.filter_sublist.map _)
    rw [visit_eq (f := Listener.unseat) h.numbered (fun _ => rfl) (horder.nodup_iff.mpr hnodup)]
    refine congrArg (fun ls => { s with listeners := ls }) (List.map_congr_left fun l hl => ?_)
    simp only [horder.mem_iff, id_mem_disconnectSlow h.numbered hl]

end Stream

/-! ## Streams in use -/

namespace Broadcast

variable {C : Codec} {b : Broadcast} {id : ListenerId}

lemma IsPast.over (h : b.IsPast id) : b.Over id := by
  rw [over_iff]
  intro l hl
  have hqueue : l.queue.IsOver := Or.inl (h.closed l hl)
  cases hphase : l.phase with
  | seeding => exact absurd hphase (h.seeded l hl)
  | streaming => exact Or.inr ⟨hphase, hqueue⟩
  | closed => exact Or.inl hphase

/-- Whoever is over finds nothing but the end, whatever happens. -/
lemma IsPast.found_eq (h : b.IsPast id) (hb : Reachable C b) (events : List Event) :
    ∀ outcome ∈ found C id b events, outcome = .finished := by
  induction events generalizing b with
  | nil => exact nofun
  | cons event rest ih =>
      intro outcome houtcome
      rcases List.mem_append.mp houtcome with hfirst | hrest
      · exact h.over event outcome hfirst
      · exact ih (h.step hb.regular C event).1 (.step event hb) outcome hrest

/-- **What a sweep does to a stream in use.**  Whoever it ends finds the end from then on, whatever
happens. -/
theorem Reachable.dismissal (hb : Reachable C b) (maxBytes : ℕ) :
    Stream.Dismissal b.stream maxBytes (b.stream.disconnectSlow maxBytes).1
        (b.step C (.operate (.disconnectSlow maxBytes))).stream ∧
      ∀ id ∈ (b.stream.disconnectSlow maxBytes).1, ∀ future,
        ∀ outcome ∈ found C id (b.step C (.operate (.disconnectSlow maxBytes))) future,
          outcome = .finished := by
  have hcounted : ∀ l ∈ b.stream.listeners, l.queue.Counted := fun l hl =>
    (hb.serves l hl).counted
  have hdismissal := Stream.dismissal_disconnectSlow hb.regular hcounted maxBytes
  refine ⟨hdismissal, fun id hid future => ?_⟩
  have hpresent : b.IsPresent id := by
    obtain ⟨l, hl, hlid, -⟩ := (hdismissal.mem_iff id).mp hid
    exact (isPresent_iff hb.regular.numbered).mpr (List.mem_map.mpr ⟨l, hl, hlid⟩)
  have hends : b.Ends id (.operate (.disconnectSlow maxBytes)) := hid
  rcases hpresent.step hb.regular C (.operate (.disconnectSlow maxBytes)) with
    ⟨hnot, -⟩ | ⟨-, hpast⟩
  · exact absurd hends hnot
  · exact hpast.found_eq (.step _ hb) future

/-- Three listeners of a stream of three chunks: one has a chunk to read, one has all of them, and
the last one has all of them but no seat. -/
def audience : Broadcast :=
  (new "main" 5 65536).run .json
    [.operate (.updateVitals { streamKey := "a", chunkDuration := 1 }),
      .operate (.push ⟨0, 1000, [0, 0], none⟩), .operate (.push ⟨1000, 1000, [1, 1], none⟩),
      .operate (.push ⟨2000, 1000, [2, 2], none⟩),
      .operate (.join { burstSeconds := 1 } 65536), .operate (.join .live 65536),
      .operate (.join (.download 15) 65536), .operate (.serve 0 .pump),
      .operate (.serve 1 .pump), .operate (.serve 2 .pump)]

lemma reachable_audience : Reachable .json audience := reachable_run .json (.new "main" 5 65536) _

/-- The sweep ends the second one alone: the first one is at the ceiling, the last one is not in the
table.  It finds the end, even after a chunk is queued for it. -/
theorem dismissal_audience :
    Reachable .json audience ∧
      Stream.Dismissal audience.stream 2 [1]
        (audience.step .json (.operate (.disconnectSlow 2))).stream ∧
      ∀ outcome ∈ found .json 1 (audience.step .json (.operate (.disconnectSlow 2)))
        [.operate (.serve 1 (.enqueue [⟨9000, 1000, [9], none⟩])), .operate (.serve 1 (.read 9))],
        outcome = .finished := by
  have hended : (audience.stream.disconnectSlow 2).1 = [1] := by decide +kernel
  obtain ⟨hdismissal, hfound⟩ := reachable_audience.dismissal 2
  rw [hended] at hdismissal hfound
  exact ⟨reachable_audience, hdismissal, hfound 1 List.mem_cons_self _⟩

end Broadcast

end RewindRelay
