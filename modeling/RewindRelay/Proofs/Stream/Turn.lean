import RewindRelay.Proofs.Stream.Seat
/-!
# What a listener can do

Of the many things that a listener does, only three change how it stands with its stream: it joins,
by a pump or by its first poll; it is refused at its first poll, and is over before it has begun; or
it leaves.  Everything else leaves its phase, its seat and the state of its queue as they were.

* `Listener.SameStanding` — nothing of that has changed.
* `Stream.Joins` — what joining makes of a listener.
* `Stream.Acts`, `Stream.acts_apply` — **all that a listener can do.**
* `Listener.Regular` — what phase, seat and queue tell of each other.
-/

namespace RewindRelay

/-! ## Standing -/

/-- Two listeners that stand the same with their stream.  What waits in the queue may differ, but
nothing comes into one that is closed and empty. -/
structure Listener.SameStanding (l l' : Listener) : Prop where
  phase : l'.phase = l.phase
  seat : l'.seat = l.seat
  closed : l'.queue.closed = l.queue.closed
  lastCall : l'.queue.lastCall = l.queue.lastCall
  spent : l.queue.closed = true → l.queue.chunks = [] → l'.queue.chunks = []

namespace Listener

variable {l : Listener}

lemma SameStanding.refl (l : Listener) : l.SameStanding l := ⟨rfl, rfl, rfl, rfl, fun _ h => h⟩

lemma sameStanding_enqueue (l : Listener) (cs : List Chunk) : l.SameStanding (l.enqueue cs) where
  phase := rfl
  seat := rfl
  closed := Queue.closed_enqueue _ _
  lastCall := Queue.lastCall_enqueue _ _
  spent := fun hclosed hnil => by
    rw [enqueue, Queue.enqueue_of_closed hclosed]
    exact hnil

lemma sameStanding_takeInterval (l : Listener) : l.SameStanding l.takeInterval.2 :=
  ⟨rfl, rfl, rfl, rfl, fun _ h => h⟩

lemma sameStanding_readQueue (l : Listener) (size : ℕ) (waker : Option Waker) :
    l.SameStanding { l with queue := (l.queue.read size waker).2 } where
  phase := rfl
  seat := rfl
  closed := Queue.closed_read _ _ _
  lastCall := Queue.lastCall_read _ _ _
  spent := fun _ hnil => by
    have hsuffix := Queue.chunks_read_suffix l.queue size waker
    rw [hnil] at hsuffix
    exact List.suffix_nil.mp hsuffix

end Listener

/-! ## Actions -/

namespace Stream

/-- Does a listener ask for its first audio by this, if it has had none? -/
def ListenerAction.asks : ListenerAction → Bool
  | .pump | .poll _ => true
  | _ => false

/-- What becomes of a listener that is let in at an offset: it streams, and unless it only wants its
burst it has a seat. -/
structure Joins (s : Stream) (l : Listener) (offset : ℕ) (l' : Listener) : Prop where
  alive : s.destroyed = false
  idle : s.loading = false
  place : s.seatOffset l.options = .ok offset
  phase : l'.phase = .streaming
  seat : l'.seat = if l.options.pumpAndFinish then l.seat
    else some ⟨offset, (s.seed l.options offset).getLast?.map Chunk.ts⟩
  closed : l'.queue.closed = l.queue.closed
  lastCall : l'.queue.lastCall = (l.queue.lastCall || l.options.pumpAndFinish)

/-- All that a listener can do. -/
inductive Acts (s : Stream) (l : Listener) : ListenerAction → Listener → Prop
  /-- It plays on.  If it leaves, it had left before; if it asks for its first audio, it is not let
  in. -/
  | plays {a : ListenerAction} {l' : Listener} (same : l.SameStanding l')
    (stays : a = .leave → l.phase = .closed)
    (shut : a.asks = true → l.phase = .seeding → ∃ e, s.attach l = .error e) : Acts s l a l'
  /-- It is let in. -/
  | joins {a : ListenerAction} {offset : ℕ} {l' : Listener} (asks : a.asks = true)
    (new : l.phase = .seeding) (joined : s.Joins l offset l') : Acts s l a l'
  /-- The stream refuses it at its first poll. -/
  | refused {waker : Waker} (new : l.phase = .seeding)
    (shut : ∃ e, s.attach l = .error (.stream e)) :
    Acts s l (.poll waker) { l with phase := .closed }
  /-- It leaves. -/
  | leaves (stayed : l.phase ≠ .closed) : Acts s l .leave { l.unseat with phase := .closed }

lemma PollOutcome.ofRead_eq_pending_iff {outcome : ReadOutcome} :
    PollOutcome.ofRead outcome = .pending ↔ outcome = .idle := by
  cases outcome <;> simp [PollOutcome.ofRead]

lemma PollOutcome.ofRead_eq_finished_iff {outcome : ReadOutcome} :
    PollOutcome.ofRead outcome = .finished ↔ outcome = .finished := by
  cases outcome <;> simp [PollOutcome.ofRead]

variable {s : Stream} {l l' : Listener} {offset : ℕ}

/-- Whoever is let in settles at an offset. -/
lemma exists_joins {seeded : ℕ} (h : s.attach l = .ok (seeded, l')) :
    ∃ offset, s.Joins l offset l' := by
  obtain ⟨halive, hidle, offset, hoffset, -, rfl⟩ := attach_eq_ok_iff.mp h
  exact ⟨offset,
    { alive := halive
      idle := hidle
      place := hoffset
      phase := phase_settle _ _ _
      seat := seat_settle _ _ _
      closed := closed_settle _ _ _
      lastCall := lastCall_settle _ _ _ }⟩

lemma phase_attach {seeded : ℕ} (h : s.attach l = .ok (seeded, l')) : l'.phase = .streaming := by
  obtain ⟨offset, hjoins⟩ := exists_joins h
  exact hjoins.phase

/-- A listener that can be let in is let in. -/
lemma Joins.exists_attach (h : s.Joins l offset l') :
    ∃ seeded l'', s.attach l = .ok (seeded, l'') :=
  ⟨_, _, attach_eq_ok_iff.mpr ⟨h.alive, h.idle, offset, h.place, rfl, rfl⟩⟩

/-- A pump of a new listener that is not refused lets it in. -/
lemma exists_attach_of_pump (hnew : l.phase = .seeding) (h : (s.pumpListener l).1.isOk = true) :
    ∃ seeded l', s.attach l = .ok (seeded, l') := by
  simp only [pumpListener, hnew, if_true] at h
  split at h
  · next heq => exact ⟨_, _, heq⟩
  · cases h

/-- A listener that is let in is given its first audio. -/
lemma chunks_attach {seeded : ℕ} (h : s.attach l = .ok (seeded, l'))
    (hoffset : s.seatOffset l.options = .ok offset) (hopen : l.queue.closed = false) :
    l'.queue.chunks = l.queue.chunks ++ s.seed l.options offset := by
  obtain ⟨-, -, offset', hoffset', -, rfl⟩ := attach_eq_ok_iff.mp h
  cases hoffset.symm.trans hoffset'
  exact chunks_settle hopen _ _

lemma Joins.trans_sameStanding {l'' : Listener} (h : s.Joins l offset l')
    (hsame : l'.SameStanding l'') : s.Joins l offset l'' :=
  ⟨h.alive, h.idle, h.place, hsame.phase.trans h.phase, hsame.seat.trans h.seat,
    hsame.closed.trans h.closed, hsame.lastCall.trans h.lastCall⟩

/-- A listener that asks for its first audio and plays on. -/
lemma Acts.of_asks {a : ListenerAction} (hasks : a.asks = true) (same : l.SameStanding l')
    (shut : l.phase = .seeding → ∃ e, s.attach l = .error e) : Acts s l a l' := by
  refine .plays same (fun hleave => ?_) fun _ => shut
  rw [hleave] at hasks
  cases hasks

/-- A listener that neither asks for its first audio nor leaves. -/
lemma Acts.of_ne_leave {a : ListenerAction} (hasks : a.asks = false) (hstays : a ≠ .leave)
    (same : l.SameStanding l') : Acts s l a l' := by
  refine .plays same (fun hleave => absurd hleave hstays) fun hnot => ?_
  rw [hasks] at hnot
  cases hnot

/-- **All that a listener can do, exactly.** -/
theorem acts_apply (s : Stream) (l : Listener) (a : ListenerAction) : Acts s l a (a.apply s l) := by
  cases a with
  | pump =>
      simp only [ListenerAction.apply, pumpListener]
      split
      · next hnew =>
          split
          · next h =>
              obtain ⟨offset, hjoins⟩ := exists_joins h
              exact .joins rfl hnew hjoins
          · next e h => exact .of_asks rfl (.refl l) fun _ => ⟨e, h⟩
      · next hold => exact .of_asks rfl (.refl l) fun hnew => absurd hnew hold
  | poll waker =>
      simp only [ListenerAction.apply, pollListener]
      split
      · next hclosed =>
          refine .of_asks rfl (.refl l) fun hnew => ?_
          rw [hclosed] at hnew
          cases hnew
      · next hstreams =>
          refine .of_asks rfl (l.sameStanding_readQueue _ _) fun hnew => ?_
          rw [hstreams] at hnew
          cases hnew
      · next hnew =>
          simp only [pumpListener, hnew, if_true]
          cases h : s.attach l with
          | ok joined =>
              obtain ⟨offset, hjoins⟩ := exists_joins h
              exact .joins rfl hnew
                (hjoins.trans_sameStanding (joined.2.sameStanding_readQueue _ _))
          | error e =>
              cases e with
              | stream e => exact .refused hnew ⟨e, h⟩
              | fault f => exact .of_asks rfl (.refl l) fun _ => ⟨_, h⟩
  | read size =>
      have hstays : ListenerAction.read size ≠ .leave := fun h => by cases h
      simp only [ListenerAction.apply, Listener.read]
      split
      · exact .of_ne_leave rfl hstays (.refl l)
      · exact .of_ne_leave rfl hstays (l.sameStanding_readQueue _ _)
      · exact .of_ne_leave rfl hstays (.refl l)
  | enqueue cs => exact .of_ne_leave rfl (fun h => by cases h) (l.sameStanding_enqueue cs)
  | takeInterval => exact .of_ne_leave rfl (fun h => by cases h) l.sameStanding_takeInterval
  | leave =>
      simp only [ListenerAction.apply, Listener.close]
      split
      · next hclosed => exact .plays (.refl l) (fun _ => hclosed) fun hasks => by cases hasks
      · next hopen => exact .leaves hopen

end Stream

/-! ## Phase, seat and queue -/

namespace Listener

/-- What phase, seat and queue tell of each other. -/
structure Regular (l : Listener) : Prop where
  /-- A listener that is not seeded yet has no seat, and its queue is open. -/
  new : l.phase = .seeding → l.seat = none ∧ l.queue.closed = false ∧ l.queue.lastCall = false
  /-- One that has a seat streams, and its queue is open for good. -/
  seated : l.isSeated = true →
    l.phase = .streaming ∧ l.queue.closed = false ∧ l.queue.lastCall = false
  /-- A closed queue is empty. -/
  spent : l.queue.closed = true → l.queue.chunks = []

variable {l l' : Listener}

lemma SameStanding.isSeated (h : l.SameStanding l') : l'.isSeated = l.isSeated := by
  rw [Listener.isSeated, h.seat, Listener.isSeated]

lemma Regular.sameStanding (h : l.Regular) (hsame : l.SameStanding l') : l'.Regular where
  new := fun hnew => by
    rw [hsame.seat, hsame.closed, hsame.lastCall]
    exact h.new (hsame.phase ▸ hnew)
  seated := fun hseated => by
    rw [hsame.phase, hsame.closed, hsame.lastCall]
    exact h.seated (hsame.isSeated ▸ hseated)
  spent := fun hclosed => by
    rw [hsame.closed] at hclosed
    exact hsame.spent hclosed (h.spent hclosed)

lemma Regular.joins {s : Stream} {offset : ℕ} (h : l.Regular) (hnew : l.phase = .seeding)
    (hjoins : s.Joins l offset l') : l'.Regular := by
  obtain ⟨hseat, hopen, hlast⟩ := h.new hnew
  refine ⟨fun hphase => ?_, fun hseated => ⟨hjoins.phase, hjoins.closed.trans hopen, ?_⟩,
    fun hclosed => ?_⟩
  · rw [hjoins.phase] at hphase
    cases hphase
  · have hstay : l.options.pumpAndFinish = false := by
      by_contra honce
      rw [Bool.not_eq_false] at honce
      rw [isSeated, hjoins.seat, if_pos honce, hseat] at hseated
      cases hseated
    rw [hjoins.lastCall, hlast, hstay]
    rfl
  · rw [hjoins.closed, hopen] at hclosed
    cases hclosed

/-- A listener that is over stays so, whatever its phase says. -/
lemma regular_of_closed (hphase : l.phase ≠ .seeding) (hseat : l.seat = none)
    (hspent : l.queue.closed = true → l.queue.chunks = []) : l.Regular where
  new := fun hnew => absurd hnew hphase
  seated := fun hseated => by rw [isSeated, hseat] at hseated; cases hseated
  spent := hspent

end Listener

end RewindRelay
