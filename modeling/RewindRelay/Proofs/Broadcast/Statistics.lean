import RewindRelay.Proofs.Broadcast.Final
/-!
# Delivery statistics

The statistics of a listener are kept twice, for its whole session and for the interval since the
last report.  Reads add to both.  The interval is taken away by two parties that know nothing of
each other, the listener itself and housekeeping, and starts anew each time.  Still every byte is in
exactly one interval: one that was handed out, or the one that was not yet taken.

* `Queue.taken`, `Queue.delivers_read` — **a read counts the chunks that it takes off the queue.**
* `Queue.Tallies` — what becomes of the statistics when something is handed out or delivered.
* `Broadcast.hands`, `Broadcast.takes` — the intervals that an event hands out, and the chunks that
  it delivers.
* `Broadcast.tallies_step` — **what an event does to the statistics of a listener.**
* `Broadcast.tally_run` — **nothing is lost and nothing is counted twice**, in every run.
-/

namespace RewindRelay

/-! ## The statistics of a queue -/

lemma Chunk.totalSize_eq (cs : List Chunk) : totalSize cs = (cs.flatMap Chunk.data).length := by
  induction cs with
  | nil => rfl
  | cons c rest ih => rw [totalSize, ih, List.flatMap_cons, List.length_append, size]

namespace Queue

variable {q q' q'' : Queue} {handed past : List ListenStats} {delivered before : List Chunk}

/-- The statistics are as they were. -/
structure Still (q q' : Queue) : Prop where
  total : q'.total = q.total
  interval : q'.interval = q.interval

lemma still_self (q : Queue) : q.Still q := ⟨rfl, rfl⟩

lemma Still.trans (h : q.Still q') (h' : q'.Still q'') : q.Still q'' :=
  ⟨h'.total.trans h.total, h'.interval.trans h.interval⟩

lemma still_wake (q : Queue) : q.Still q.wake := by
  unfold wake
  split <;> exact ⟨rfl, rfl⟩

lemma still_enqueue (q : Queue) (cs : List Chunk) : q.Still (q.enqueue cs) := by
  unfold enqueue
  split
  · exact q.still_self
  · obtain ⟨htotal, hinterval⟩ := still_wake { q with
      chunks := q.chunks ++ cs
      queuedBytes := q.queuedBytes + Chunk.totalSize cs }
    exact ⟨htotal, hinterval⟩

lemma still_finish (q : Queue) : q.Still q.finish := by
  obtain ⟨htotal, hinterval⟩ := still_wake { q with lastCall := true }
  exact ⟨htotal, hinterval⟩

lemma still_close (q : Queue) : q.Still q.close := by
  obtain ⟨htotal, hinterval⟩ := still_wake { q with closed := true, chunks := [], queuedBytes := 0 }
  exact ⟨htotal, hinterval⟩

/-- The chunks that a read of this size takes off the front of the queue. -/
def taken (q : Queue) (size : ℕ) : List Chunk :=
  q.chunks.take (q.chunks.length - (q.read size none).2.chunks.length)

/-- What a read finds, and what it makes of the queue, when it delivers these chunks. -/
structure Delivers (q : Queue) (taken : List Chunk) (outcome : ReadOutcome) (q' : Queue) :
    Prop where
  front : q.chunks = taken ++ q'.chunks
  bytes : outcome.bytes = taken.flatMap Chunk.data
  total : q'.total = deliver q.total taken
  interval : q'.interval = deliver q.interval taken

/-- Which chunks a read takes depends on its size alone. -/
lemma exists_delivers (q : Queue) (size : ℕ) :
    ∃ taken, ∀ waker, q.Delivers taken (q.read size waker).1 (q.read size waker).2 := by
  cases hclosed : q.closed with
  | true =>
      refine ⟨[], fun waker => ?_⟩
      rw [read, if_pos hclosed]
      exact ⟨rfl, rfl, rfl, rfl⟩
  | false =>
      cases hchunks : q.chunks with
      | nil =>
          refine ⟨[], fun waker => ?_⟩
          simp only [read, hclosed, hchunks, Bool.false_eq_true, if_false]
          split <;> exact ⟨hchunks.symm ▸ rfl, rfl, rfl, rfl⟩
      | cons first rest =>
          refine ⟨first :: (more size first.size rest).1, fun waker => ?_⟩
          simp only [read, hclosed, hchunks, Bool.false_eq_true, if_false]
          refine ⟨?_, rfl, rfl, rfl⟩
          rw [hchunks, List.cons_append, more_append]

/-- **A read counts the chunks that it takes off the queue**, and gives their payloads. -/
theorem delivers_read (q : Queue) (size : ℕ) (waker : Option Waker) :
    q.Delivers (q.taken size) (q.read size waker).1 (q.read size waker).2 := by
  obtain ⟨taken, hdelivers⟩ := q.exists_delivers size
  have htaken : q.taken size = taken := by
    rw [Queue.taken, (hdelivers none).front, List.length_append, Nat.add_sub_cancel,
      List.take_left]
  rw [htaken]
  exact hdelivers waker

/-- What becomes of the statistics when these intervals are handed out or these chunks are
delivered. -/
inductive Tallies (q : Queue) : List ListenStats → List Chunk → Queue → Prop
  | reads {taken : List Chunk} {q' : Queue} (total : q'.total = deliver q.total taken)
    (interval : q'.interval = deliver q.interval taken) : Tallies q [] taken q'
  | hands {q' : Queue} (total : q'.total = q.total) (interval : q'.interval = {}) :
    Tallies q [q.interval] [] q'

lemma Still.tallies (h : q.Still q') : q.Tallies [] [] q' := .reads h.total h.interval

lemma Tallies.of_still (h : q.Still q') (h' : q'.Tallies [] delivered q'') :
    q.Tallies [] delivered q'' := by
  cases h' with
  | reads total interval =>
      rw [h.total] at total
      rw [h.interval] at interval
      exact .reads total interval

lemma Tallies.still (h : q.Tallies [] [] q') : q.Still q' := by
  cases h with
  | reads total interval => exact ⟨total, interval⟩

/-- The books of a queue of which these intervals were handed out and these chunks delivered. -/
structure Tallied (handed : List ListenStats) (taken : List Chunk) (q : Queue) : Prop where
  total : q.total = deliver {} taken
  bytes : q.total.bytes = (handed.map ListenStats.bytes).sum + q.interval.bytes
  chunks : q.total.chunks = (handed.map ListenStats.chunks).sum + q.interval.chunks

/-- **Whatever is handed out or delivered, the books stay right.** -/
lemma Tallied.tallies (h : q.Tallied past before) (hnext : q.Tallies handed delivered q') :
    q'.Tallied (past ++ handed) (before ++ delivered) := by
  cases hnext with
  | reads total interval =>
      rw [List.append_nil]
      exact
        { total := by rw [total, h.total, deliver_append]
          bytes := by rw [total, interval, bytes_deliver, bytes_deliver, h.bytes, Nat.add_assoc]
          chunks := by
            rw [total, interval, chunks_deliver, chunks_deliver, h.chunks, Nat.add_assoc] }
  | hands total interval =>
      rw [List.append_nil]
      exact
        { total := total.trans h.total
          bytes := by
            rw [total, interval, h.bytes, List.map_append, List.sum_append, List.map_singleton,
              List.sum_singleton]
            rfl
          chunks := by
            rw [total, interval, h.chunks, List.map_append, List.sum_append, List.map_singleton,
              List.sum_singleton]
            rfl }

end Queue

/-! ## What a listener does -/

/-- The chunks that a read of this size delivers to a listener. -/
def Listener.taken (l : Listener) (size : ℕ) : List Chunk :=
  if l.phase = .streaming then l.queue.taken size else []

namespace Stream

/-- The bytes that a listener finds. -/
def PollOutcome.bytes : PollOutcome → Bytes
  | .data bytes => bytes
  | _ => []

/-- The intervals that are handed out with an answer. -/
def Answer.intervals : Answer → List ListenStats
  | .interval stats => [stats]
  | .reported reports => reports.map Report.interval
  | _ => []

/-- The intervals that are handed out when a listener does this. -/
def ListenerAction.hands (s : Stream) (l : Listener) (a : ListenerAction) : List ListenStats :=
  (a.answer? s l).toList.flatMap Answer.intervals

/-- The chunks that are delivered to a listener when it does this.  A first poll is a pump, and then
a read. -/
def ListenerAction.takes (s : Stream) (l : Listener) : ListenerAction → List Chunk
  | .poll _ =>
    let pumped := (s.pumpListener l).2
    pumped.taken pumped.readSize
  | .read size => l.taken size
  | _ => []

variable {s s' : Stream} {id : ListenerId} {l l' : Listener}

lemma PollOutcome.bytes_ofRead (outcome : ReadOutcome) :
    (PollOutcome.ofRead outcome).bytes = outcome.bytes := by
  cases outcome <;> rfl

lemma still_attach {seeded : ℕ} (h : s.attach l = .ok (seeded, l')) :
    l.queue.Still l'.queue := by
  obtain ⟨chunks, heq | heq⟩ := queue_attach h <;> rw [heq]
  · exact (l.queue.still_enqueue _).trans (Queue.still_finish _)
  · exact l.queue.still_enqueue _

lemma still_pump (s : Stream) (l : Listener) : l.queue.Still (s.pumpListener l).2.queue := by
  unfold pumpListener
  split
  · split
    · next hattach => exact still_attach hattach
    · exact l.queue.still_self
  · exact l.queue.still_self

/-- A poll is a read after a pump, or it does not get at the queue. -/
lemma pollListener_cases (s : Stream) (waker : Waker) (l : Listener) :
    (s.pumpListener l).2.phase = .streaming ∧
        s.pollListener waker l = readFor (s.pumpListener l).2 waker ∨
      (s.pumpListener l).2.phase ≠ .streaming ∧ (s.pollListener waker l).1.bytes = [] ∧
        (s.pollListener waker l).2.queue = l.queue := by
  cases hphase : l.phase with
  | closed => exact Or.inr (by simp [pumpListener, pollListener, hphase, PollOutcome.bytes])
  | streaming => exact Or.inl (by simp [pumpListener, pollListener, hphase])
  | seeding =>
      cases hattach : s.attach l with
      | error e =>
          obtain ⟨l', hpoll, hqueue⟩ := exists_pollListener_of_error hphase hattach waker
          exact Or.inr ⟨by simp [pumpListener, hphase, hattach], by rw [hpoll]; rfl,
            by rw [hpoll, hqueue]⟩
      | ok joined =>
          refine Or.inl ?_
          simp [pumpListener, pollListener, hphase, hattach, phase_attach hattach]

/-- What a listener finds is the payload of the chunks that are delivered to it. -/
lemma bytes_actionFinds (s : Stream) (l : Listener) (a : ListenerAction) :
    (a.finds s l).flatMap PollOutcome.bytes = (a.takes s l).flatMap Chunk.data := by
  cases a with
  | poll waker =>
      have hfinds : (ListenerAction.poll waker).finds s l = [(s.pollListener waker l).1] := rfl
      rw [hfinds, List.flatMap_singleton]
      rcases s.pollListener_cases waker l with ⟨hphase, heq⟩ | ⟨hphase, hnone, -⟩
      · rw [heq, ListenerAction.takes, Listener.taken, if_pos hphase, readFor,
          PollOutcome.bytes_ofRead, (Queue.delivers_read _ _ _).bytes]
      · rw [hnone, ListenerAction.takes, Listener.taken, if_neg hphase, List.flatMap_nil]
  | read size =>
      have hfinds : (ListenerAction.read size).finds s l = [.ofRead (l.read size).1] := rfl
      rw [hfinds, List.flatMap_singleton, PollOutcome.bytes_ofRead, ListenerAction.takes,
        Listener.taken]
      cases hphase : l.phase with
      | streaming =>
          rw [if_pos rfl, ← (l.queue.delivers_read size none).bytes]
          simp only [Listener.read, hphase]
      | seeding | closed =>
          simp only [Listener.read, hphase, reduceCtorEq, if_false]
          rfl
  | pump | enqueue _ | takeInterval | leave => rfl

/-- What a listener does to its own statistics. -/
lemma tallies_apply (s : Stream) (l : Listener) (a : ListenerAction) :
    l.queue.Tallies (a.hands s l) (a.takes s l) (a.apply s l).queue := by
  cases a with
  | pump => exact (s.still_pump l).tallies
  | poll waker =>
      simp only [ListenerAction.takes, ListenerAction.apply, Listener.taken]
      rcases s.pollListener_cases waker l with ⟨hphase, heq⟩ | ⟨hphase, -, heq⟩
      · have hread := (s.pumpListener l).2.queue.delivers_read (s.pumpListener l).2.readSize waker
        rw [heq, if_pos hphase]
        exact .of_still (s.still_pump l) (.reads hread.total hread.interval)
      · rw [heq, if_neg hphase]
        exact l.queue.still_self.tallies
  | read size =>
      simp only [ListenerAction.takes, ListenerAction.apply, Listener.taken, Listener.read]
      cases hphase : l.phase with
      | streaming =>
          have hread := l.queue.delivers_read size none
          exact .reads hread.total hread.interval
      | seeding | closed => exact l.queue.still_self.tallies
  | enqueue cs => exact (l.queue.still_enqueue cs).tallies
  | takeInterval => exact .hands rfl rfl
  | leave =>
      simp only [ListenerAction.apply, Listener.close]
      split
      · exact l.queue.still_self.tallies
      · exact l.queue.still_close.tallies

/-! ## What is done to all listeners -/

/-- Whoever has this number afterwards had it before, and has the same statistics. -/
def Still (s : Stream) (id : ListenerId) (s' : Stream) : Prop :=
  ∀ l', s'.listener? id = some l' → ∃ l, s.listener? id = some l ∧ l.queue.Still l'.queue

lemma still_of_listener? (h : s'.listener? id = s.listener? id) : s.Still id s' := fun l' hl' =>
  ⟨l', h ▸ hl', l'.queue.still_self⟩

lemma still_of_listeners (h : s'.listeners = s.listeners) : s.Still id s' :=
  still_of_listener? (by rw [listener?, h, listener?])

lemma Still.tallies (h : s.Still id s') (hl' : s'.listener? id = some l') :
    ∃ l, s.listener? id = some l ∧ l.queue.Tallies [] [] l'.queue := by
  obtain ⟨l, hl, hstill⟩ := h l' hl'
  exact ⟨l, hl, hstill.tallies⟩

/-- Something is done to all listeners that leaves their statistics alone. -/
lemma still_map {f : Listener → Listener} (hid : ∀ l, (f l).id = l.id)
    (hf : ∀ l : Listener, l.queue.Still (f l).queue)
    (hs' : s'.listeners = s.listeners.map f) : s.Still id s' := by
  intro l' hl'
  have hmap : s'.listener? id = (s.listener? id).map f := by
    rw [← s.listener?_map hid, listener?, hs', listener?]
  rw [hmap] at hl'
  obtain ⟨l, hl, rfl⟩ := Option.map_eq_some_iff.mp hl'
  exact ⟨l, hl, hf l⟩

/-- Some listeners are ended. -/
lemma still_unseat {p : Listener → Bool}
    (hs' : s'.listeners = s.listeners.map fun l => if p l then l.unseat else l) :
    s.Still id s' := by
  refine still_map (fun l => ?_) (fun l => ?_) hs'
  · split <;> rfl
  · split
    · exact l.queue.still_close
    · exact l.queue.still_self

lemma still_forgetCursor (hs' : s'.listeners = s.listeners.map Listener.forgetCursor) :
    s.Still id s' :=
  still_map (f := Listener.forgetCursor) (fun _ => rfl) (fun l => l.queue.still_self) hs'

lemma still_push (s : Stream) (id : ListenerId) (c : Chunk) : s.Still id (s.push c).2 := by
  rcases s.push_cases c with ⟨-, heq⟩ | ⟨-, -, heq⟩ | ⟨-, -, heq⟩ <;> rw [heq]
  · exact still_of_listeners rfl
  · refine still_map (Listener.id_deliverTo _) (fun l => ?_) rfl
    unfold deliverTo
    split
    · exact l.queue.still_self
    · split
      · exact l.queue.still_self
      · exact l.queue.still_enqueue _
  · exact still_of_listeners rfl

lemma still_updateVitals (s : Stream) (id : ListenerId) (v : Vitals) :
    s.Still id (s.updateVitals v).2 := by
  rcases s.updateVitals_cases v with ⟨-, heq⟩ | ⟨-, -, heq⟩ | ⟨-, -, heq⟩ <;> rw [heq]
  · exact still_of_listeners rfl
  · exact still_of_listeners rfl
  · exact still_forgetCursor rfl

lemma still_destroy (s : Stream) (id : ListenerId) : s.Still id s.destroy := by
  unfold destroy
  split
  · exact still_of_listeners rfl
  · exact still_unseat rfl

lemma still_stepPreload (C : Codec) (s : Stream) (id : ListenerId) (p : Preload)
    (a : PreloadAction) : s.Still id (s.stepPreload C p a).2 := by
  have hspec := stepPreload_spec C s p a
  generalize s.stepPreload C p a = result at hspec ⊢
  cases hspec with
  | header h loader decoded usable => exact s.still_updateVitals id h.vitals
  | _ => exact still_of_listeners rfl

/-- What a sweep of reports hands out of a listener: its interval, if it has a seat. -/
lemma intervals_reports (s : Stream) (id : ListenerId) :
    ((s.reports.1.filter fun r => r.id = id).map Report.interval) =
      ((s.listeners.filter fun l => l.id = id).filter Listener.isSeated).map
        fun l => l.queue.interval := by
  simp only [reports]
  induction s.listeners with
  | nil => rfl
  | cons l rest ih =>
      cases hseat : l.seat with
      | none =>
          have hreport : report? l = none := by rw [report?, hseat, Option.map_none]
          by_cases hid : l.id = id <;> simp [hreport, hid, Listener.isSeated, hseat, ih]
      | some seat =>
          by_cases hid : l.id = id <;> simp [report?, hid, Listener.isSeated, hseat, ih]

/-- Nobody else has the number of a listener. -/
lemma filter_id_eq (h : s.Numbered) (id : ListenerId) :
    (s.listeners.filter fun l => l.id = id) = (s.listener? id).toList := by
  have hnodup : (s.listeners.filter fun l => l.id = id).Nodup := h.nodup.of_map.filter _
  have hmem : ∀ l, l ∈ s.listeners.filter (fun l => l.id = id) ↔ s.listener? id = some l :=
    fun l => by rw [listener?_eq_some_iff h, List.mem_filter, decide_eq_true_eq]
  cases hl : s.listener? id with
  | none => exact List.eq_nil_iff_forall_not_mem.mpr fun l hmem' => by simp [hmem, hl] at hmem'
  | some l =>
      have hperm : (s.listeners.filter fun l => l.id = id).Perm [l] :=
        (List.perm_ext_iff_of_nodup hnodup (List.nodup_singleton l)).mpr fun l' => by
          rw [hmem, hl, Option.some_inj, List.mem_singleton, eq_comm]
      exact List.perm_singleton.mp hperm

end Stream

/-! ## On a stream -/

/-- Does a listener read by this, or take its interval? -/
def Stream.ListenerAction.tallies : Stream.ListenerAction → Bool
  | .poll _ | .read _ | .takeInterval => true
  | .pump | .enqueue _ | .leave => false

/-- Can this change the statistics of a listener?  It can if the listener reads, or if its interval
is taken away. -/
def Event.tallies (id : ListenerId) : Event → Bool
  | .operate (.serve k a) => k == id && a.tallies
  | .operate .reports => true
  | _ => false

namespace Broadcast

/-- The intervals of a listener that an event hands out. -/
def hands (b : Broadcast) (id : ListenerId) (event : Event) : List ListenStats :=
  (Event.answer? b id event).toList.flatMap Stream.Answer.intervals

/-- The chunks that are delivered to a listener by an event. -/
def takes (b : Broadcast) (id : ListenerId) : Event → List Chunk
  | .operate (.serve k a) =>
    if k = id then (b.stream.listener? id).toList.flatMap fun l => a.takes b.stream l else []
  | _ => []

/-- What the events of a run give, one after the other. -/
def gathered {α : Type} (C : Codec) (gives : Broadcast → Event → List α) :
    Broadcast → List Event → List α
  | _, [] => []
  | b, event :: rest => gives b event ++ gathered C gives (b.step C event) rest

/-- The intervals of a listener that are handed out in a run, by whichever call. -/
def handed (C : Codec) (id : ListenerId) (b : Broadcast) (events : List Event) :
    List ListenStats :=
  gathered C (fun b event => b.hands id event) b events

/-- The chunks that are delivered to a listener in a run. -/
def delivered (C : Codec) (id : ListenerId) (b : Broadcast) (events : List Event) : List Chunk :=
  gathered C (fun b event => b.takes id event) b events

variable {C : Codec} {b : Broadcast} {id : ListenerId} {event : Event} {l l' : Listener}

lemma gathered_concat {α : Type} (C : Codec) (gives : Broadcast → Event → List α) (b : Broadcast)
    (past : List Event) (event : Event) :
    gathered C gives b (past ++ [event]) =
      gathered C gives b past ++ gives (b.run C past) event := by
  induction past generalizing b with
  | nil => exact List.append_nil _
  | cons first rest ih =>
      rw [List.cons_append, gathered, ih, gathered, List.append_assoc]
      rfl

lemma takes_serve (hl : b.stream.listener? id = some l) (a : Stream.ListenerAction) :
    b.takes id (.operate (.serve id a)) = a.takes b.stream l := by
  rw [takes, if_pos rfl, hl, Option.toList_some, List.flatMap_singleton]

lemma hands_serve (hl : b.stream.listener? id = some l) (a : Stream.ListenerAction) :
    b.hands id (.operate (.serve id a)) = a.hands b.stream l := by
  rw [hands, Event.answer?, Stream.Operation.answer?, if_pos rfl, hl, Option.bind_some]
  rfl

/-- What a listener finds is the payload of the chunks that are delivered to it. -/
lemma bytes_finds (b : Broadcast) (id : ListenerId) (event : Event) :
    (b.finds id event).flatMap Stream.PollOutcome.bytes =
      (b.takes id event).flatMap Chunk.data := by
  cases hown : event.isOwn id with
  | false =>
      have htakes : b.takes id event = [] := by
        unfold takes
        split
        · next k a =>
            have hk : k ≠ id := by simpa [Event.isOwn, Stream.Operation.isOwn] using hown
            exact if_neg hk
        · rfl
      rw [finds_of_not_own hown, htakes]
      rfl
  | true =>
      rcases isOwn_cases hown with ⟨a, rfl⟩ | rfl
      · cases hl : b.stream.listener? id with
        | none => simp [finds, takes, Event.answer?, Stream.Operation.answer?, hl]
        | some l =>
            rw [finds_serve hl, takes_serve hl]
            exact b.stream.bytes_actionFinds l a
      · rfl

lemma bytes_found (C : Codec) (id : ListenerId) (b : Broadcast) (events : List Event) :
    (found C id b events).flatMap Stream.PollOutcome.bytes =
      (delivered C id b events).flatMap Chunk.data := by
  induction events generalizing b with
  | nil => rfl
  | cons event rest ih =>
      rw [found, List.flatMap_append, bytes_finds, ih, delivered, delivered, gathered,
        List.flatMap_append]

/-- What a sweep of reports hands out of a listener: its interval, if it has a seat. -/
lemma hands_reports (h : b.stream.Numbered) (id : ListenerId) :
    b.hands id (.operate .reports) =
      ((b.stream.listener? id).toList.filter Listener.isSeated).map fun l => l.queue.interval := by
  rw [hands, Event.answer?, Stream.Operation.answer?, Option.toList_some, List.flatMap_singleton,
    Stream.Answer.intervals, List.map_map, ← b.stream.filter_id_eq h, ← b.stream.intervals_reports]
  rfl

lemma hands_of_not_tallies (h : event.tallies id = false) : b.hands id event = [] := by
  cases event with
  | start | preload _ _ => rfl
  | operate op =>
      cases op with
      | serve k a =>
          by_cases hk : k = id
          · subst hk
            cases hl : b.stream.listener? k with
            | none => simp [hands, Event.answer?, Stream.Operation.answer?, hl]
            | some l =>
                rw [hands_serve hl]
                cases a with
                | takeInterval => simp [Event.tallies, Stream.ListenerAction.tallies] at h
                | pump | poll _ | read _ | enqueue _ | leave => rfl
          · simp [hands, Event.answer?, Stream.Operation.answer?, hk]
      | reports => cases h
      | _ => rfl

lemma takes_of_not_tallies (h : event.tallies id = false) : b.takes id event = [] := by
  cases event with
  | start | preload _ _ => rfl
  | operate op =>
      cases op with
      | serve k a =>
          by_cases hk : k = id
          · subst hk
            cases hl : b.stream.listener? k with
            | none => simp [takes, hl]
            | some l =>
                rw [takes_serve hl]
                cases a with
                | poll _ | read _ => simp [Event.tallies, Stream.ListenerAction.tallies] at h
                | pump | enqueue _ | takeInterval | leave => rfl
          · simp [takes, hk]
      | _ => rfl

/-- **What an event does to the statistics of a listener**, unless it has just joined. -/
theorem tallies_step (hb : b.stream.Numbered) (C : Codec) (event : Event)
    (hl' : (b.step C event).stream.listener? id = some l') :
    (∃ l, b.stream.listener? id = some l ∧
        l.queue.Tallies (b.hands id event) (b.takes id event) l'.queue) ∨
      b.stream.nextListener = id ∧ l'.queue = {} ∧
        b.hands id event = [] ∧ b.takes id event = [] := by
  cases event with
  | start => exact Or.inl ⟨l', hl', l'.queue.still_self.tallies⟩
  | preload k a =>
      simp only [step] at hl'
      split at hl'
      · exact Or.inl ((b.stream.still_stepPreload C id _ a).tallies hl')
      · exact Or.inl ⟨l', hl', l'.queue.still_self.tallies⟩
  | operate op =>
      cases op with
      | push c => exact Or.inl ((b.stream.still_push id c).tallies hl')
      | updateVitals v => exact Or.inl ((b.stream.still_updateVitals id v).tallies hl')
      | setWindow _ | adjust => exact Or.inl ⟨l', hl', l'.queue.still_self.tallies⟩
      | reset => exact Or.inl ((Stream.still_forgetCursor rfl).tallies hl')
      | destroy => exact Or.inl ((b.stream.still_destroy id).tallies hl')
      | disconnectSlow maxBytes => exact Or.inl ((Stream.still_unseat rfl).tallies hl')
      | join options readSize =>
          cases hl : b.stream.listener? id with
          | some l =>
              rw [Broadcast.step, Stream.Operation.apply, Stream.listener?_join, hl,
                Option.some_or] at hl'
              cases hl'
              exact Or.inl ⟨l', rfl, l'.queue.still_self.tallies⟩
          | none =>
              rw [Broadcast.step, Stream.Operation.apply, Stream.listener?_join, hl,
                Option.none_or] at hl'
              split_ifs at hl' with hnext
              cases hl'
              exact Or.inr ⟨hnext, rfl, rfl, rfl⟩
      | serve k a =>
          by_cases hk : k = id
          · subst hk
            rw [Broadcast.step, Stream.Operation.apply, Stream.listener?_act, if_pos rfl] at hl'
            obtain ⟨l, hl, rfl⟩ := Option.map_eq_some_iff.mp hl'
            rw [hands_serve hl, takes_serve hl]
            exact Or.inl ⟨l, hl, b.stream.tallies_apply l a⟩
          · have hother : b.stream.Still id (b.stream.act k a) :=
              Stream.still_of_listener? (by rw [Stream.listener?_act, if_neg (Ne.symm hk)])
            have hevent : Event.tallies id (.operate (.serve k a)) = false := by
              simp [Event.tallies, hk]
            rw [hands_of_not_tallies hevent, takes_of_not_tallies hevent]
            exact Or.inl (hother.tallies hl')
      | drop k =>
          by_cases hk : k = id
          · subst hk
            rw [Broadcast.step, Stream.Operation.apply, Stream.listener?_forget] at hl'
            cases hl'
          · have hother : b.stream.Still id ((b.stream.act k .leave).forget k) :=
              Stream.still_of_listener? (by
                rw [Stream.listener?_forget_of_ne _ (Ne.symm hk), Stream.listener?_act,
                  if_neg (Ne.symm hk)])
            exact Or.inl (hother.tallies hl')
      | reports =>
          have hmap := b.stream.listener?_map
            (f := fun l => if l.isSeated then l.takeInterval.2 else l)
            (fun l => by split <;> rfl) id
          rw [Broadcast.step, Stream.Operation.apply, Stream.reports, hmap] at hl'
          obtain ⟨l, hl, rfl⟩ := Option.map_eq_some_iff.mp hl'
          refine Or.inl ⟨l, hl, ?_⟩
          rw [hands_reports hb, hl, Option.toList_some]
          cases hseated : l.isSeated with
          | false =>
              rw [List.filter_singleton, hseated]
              exact l.queue.still_self.tallies
          | true =>
              rw [List.filter_singleton, hseated]
              exact .hands rfl rfl

/-- All else that happens leaves the statistics of a listener alone. -/
lemma still_step (hb : b.stream.Numbered) (hl : b.stream.listener? id = some l)
    (hevent : event.tallies id = false) (hl' : (b.step C event).stream.listener? id = some l') :
    l.queue.Still l'.queue := by
  rcases tallies_step hb C event hl' with ⟨x, hx, htallies⟩ | ⟨hnext, -⟩
  · cases hl.symm.trans hx
    rw [hands_of_not_tallies hevent, takes_of_not_tallies hevent] at htallies
    exact htallies.still
  · exact absurd hnext (Nat.ne_of_gt (hb.lt_of_listener? hl))

/-! ## A run -/

/-- What is known of a number at some moment, when these intervals were handed out and these chunks
were delivered to whoever had it. -/
structure Books (id : ListenerId) (b : Broadcast) (handed : List ListenStats)
    (delivered : List Chunk) : Prop where
  numbered : b.stream.Numbered
  tallied : ∀ l, b.stream.listener? id = some l → l.queue.Tallied handed delivered
  /-- Nobody had it before it was given. -/
  unused : b.stream.nextListener ≤ id → handed = [] ∧ delivered = []

/-- Nothing is handed out or delivered to a number that nobody has. -/
lemma nothing_of_none (hb : b.stream.Numbered) (hnone : b.stream.listener? id = none)
    (event : Event) : b.hands id event = [] ∧ b.takes id event = [] := by
  cases htallies : event.tallies id with
  | false => exact ⟨hands_of_not_tallies htallies, takes_of_not_tallies htallies⟩
  | true =>
      unfold Event.tallies at htallies
      split at htallies
      · next k a =>
          obtain rfl : k = id := by simp_all
          simp [hands, takes, Event.answer?, Stream.Operation.answer?, hnone]
      · rw [hands_reports hb, hnone]
        exact ⟨rfl, rfl⟩
      · cases htallies

/-- **One event.**  The first thing that is known of a listener is that it has joined, and its
number was nobody's before. -/
lemma Books.step {handed : List ListenStats} {delivered : List Chunk}
    (h : Books id b handed delivered) (C : Codec) (event : Event) :
    Books id (b.step C event) (handed ++ b.hands id event) (delivered ++ b.takes id event) where
  numbered := numbered_step h.numbered C event
  tallied := by
    intro l' hl'
    rcases tallies_step h.numbered C event hl' with ⟨l, hl, htallies⟩ | ⟨hnext, hnew, hnone⟩
    · exact (h.tallied l hl).tallies htallies
    · obtain ⟨rfl, rfl⟩ := h.unused (Nat.le_of_eq hnext)
      rw [hnone.1, hnone.2, hnew]
      exact ⟨rfl, rfl, rfl⟩
  unused := by
    intro hnext
    have hunused := (nextListener_le_step C b event).trans hnext
    have hnone : b.stream.listener? id = none := by
      by_contra hsome
      obtain ⟨l, hl⟩ := Option.ne_none_iff_exists'.mp hsome
      exact Nat.not_le_of_lt (h.numbered.lt_of_listener? hl) hunused
    obtain ⟨rfl, rfl⟩ := h.unused hunused
    obtain ⟨hhands, htakes⟩ := nothing_of_none h.numbered hnone event
    rw [hhands, htakes]
    exact ⟨rfl, rfl⟩

/-- **The books of a run** of a new stream. -/
lemma books_run (C : Codec) (name : String) (windowSeconds : Float) (readSize : ℕ)
    (id : ListenerId) (events : List Event) :
    Books id ((new name windowSeconds readSize).run C events)
      (handed C id (new name windowSeconds readSize) events)
      (delivered C id (new name windowSeconds readSize) events) := by
  induction events using List.reverseRecOn with
  | nil =>
      have hnone : (new name windowSeconds readSize).stream.listener? id = none := rfl
      exact
        { numbered := numbered_new name windowSeconds readSize
          tallied := fun l hl => absurd (hnone.symm.trans hl) (Option.some_ne_none l).symm
          unused := fun _ => ⟨rfl, rfl⟩ }
  | append_singleton past event ih =>
      rw [handed, delivered, gathered_concat, gathered_concat, run_append]
      exact ih.step C event

/-- What the statistics of a listener say, when these intervals were handed out, these chunks were
delivered, and its reads have found this. -/
structure Tally (C : Codec) (b : Broadcast) (id : ListenerId) (l : Listener)
    (handed : List ListenStats) (delivered : List Chunk) (found : List Stream.PollOutcome) :
    Prop where
  /-- What was handed out and what was not yet taken are all of it. -/
  bytes : l.queue.total.bytes = (handed.map ListenStats.bytes).sum + l.queue.interval.bytes
  chunks : l.queue.total.chunks = (handed.map ListenStats.chunks).sum + l.queue.interval.chunks
  /-- What the reads have found is all of it. -/
  payload : found.flatMap Stream.PollOutcome.bytes = delivered.flatMap Chunk.data
  size : l.queue.total.bytes = (found.flatMap Stream.PollOutcome.bytes).length
  count : l.queue.total.chunks = delivered.length
  /-- All else that happens changes nothing of this: audio comes, or the queue is closed. -/
  rest : ∀ event, event.tallies id = false →
    b.hands id event = [] ∧ b.takes id event = [] ∧
      ∀ l', (b.step C event).stream.listener? id = some l' →
        l'.queue.total = l.queue.total ∧ l'.queue.interval = l.queue.interval

/-- **Statistics lose nothing and count nothing twice**, in every run of a new stream.  The
intervals that were handed out, by reports or to the listener itself, and the one that was not yet
taken add up to the total, and the total is what the reads have found. -/
theorem tally_run (C : Codec) (name : String) (windowSeconds : Float) (readSize : ℕ)
    (events : List Event) (id : ListenerId) {l : Listener}
    (hl : ((new name windowSeconds readSize).run C events).stream.listener? id = some l) :
    Tally C ((new name windowSeconds readSize).run C events) id l
      (handed C id (new name windowSeconds readSize) events)
      (delivered C id (new name windowSeconds readSize) events)
      (found C id (new name windowSeconds readSize) events) := by
  have hbooks := books_run C name windowSeconds readSize id events
  have hpayload := bytes_found C id (new name windowSeconds readSize) events
  have htallied := hbooks.tallied l hl
  exact
    { bytes := htallied.bytes
      chunks := htallied.chunks
      payload := hpayload
      size := by rw [hpayload, ← Chunk.totalSize_eq, htallied.total, Queue.bytes_deliver,
        Nat.zero_add]
      count := by rw [htallied.total, Queue.chunks_deliver, Nat.zero_add]
      rest := fun event hevent =>
        ⟨hands_of_not_tallies hevent, takes_of_not_tallies hevent, fun l' hl' =>
          have hstill := still_step hbooks.numbered hl hevent hl'
          ⟨hstill.total, hstill.interval⟩⟩ }

/-- A listener reads, housekeeping reports, the listener takes its interval and reads on; then the
stream is destroyed while a chunk waits. -/
def sitting : List Event :=
  [.operate (.updateVitals { streamKey := "a", chunkDuration := 1 }),
    .operate (.push ⟨0, 1000, [0, 0], none⟩), .operate (.push ⟨1000, 1000, [1], none⟩),
    .operate (.join .live 65536), .operate (.serve 0 (.poll 7)), .operate .reports,
    .operate (.push ⟨2000, 1000, [2, 2, 2], none⟩), .operate (.serve 0 (.read 1)),
    .operate (.serve 0 .takeInterval), .operate (.push ⟨3000, 1000, [3], none⟩),
    .operate (.serve 0 (.read 1)), .operate (.push ⟨4000, 1000, [4], none⟩), .operate .destroy]

lemma listener?_sitting :
    (((new "main" 5 65536).run .json sitting).stream.listener? 0).isSome = true := by
  decide +kernel

/-- Its totals are those of the first two intervals and of the one that nobody took. -/
theorem tally_sitting :
    ∃ l, ((new "main" 5 65536).run .json sitting).stream.listener? 0 = some l ∧
      l.queue.total.bytes =
        ((handed .json 0 (new "main" 5 65536) sitting).map ListenStats.bytes).sum +
          l.queue.interval.bytes ∧
      Tally .json ((new "main" 5 65536).run .json sitting) 0 l
        (handed .json 0 (new "main" 5 65536) sitting)
        (delivered .json 0 (new "main" 5 65536) sitting)
        (found .json 0 (new "main" 5 65536) sitting) := by
  obtain ⟨l, hl⟩ := Option.isSome_iff_exists.mp listener?_sitting
  have htally := tally_run .json "main" 5 65536 sitting 0 hl
  exact ⟨l, hl, htally.bytes, htally⟩

end Broadcast

end RewindRelay
