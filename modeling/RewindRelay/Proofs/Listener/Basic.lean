import Mathlib.Tactic
import RewindRelay.Proofs.Broadcast.Basic
/-!
# What operations leave of a listener

Small facts about the queue and the seat of a listener, one for each operation and field, so that
later proofs need not open the operations.

* `Queue.chunks_enqueue`, `Queue.closed_enqueue` and their companions — the fields of a queue.
* `Stream.attach_eq_ok_iff` — what it takes to join, and what comes of it.
* `Listener.Sound` — a listener that is not seeded yet has no seat and an open queue.
* `Listener.Sound.deliverTo` and its companions — **every operation keeps that.**
-/

namespace RewindRelay

/-! ## Queues -/

namespace Queue

variable (q : Queue)

@[simp] lemma chunks_wake : q.wake.chunks = q.chunks := by unfold wake; split <;> rfl

@[simp] lemma closed_wake : q.wake.closed = q.closed := by unfold wake; split <;> rfl

@[simp] lemma lastCall_wake : q.wake.lastCall = q.lastCall := by unfold wake; split <;> rfl

@[simp] lemma closed_enqueue (cs : List Chunk) : (q.enqueue cs).closed = q.closed := by
  unfold enqueue
  split <;> simp_all

@[simp] lemma lastCall_enqueue (cs : List Chunk) : (q.enqueue cs).lastCall = q.lastCall := by
  unfold enqueue
  split <;> simp_all

/-- A closed queue takes nothing. -/
lemma enqueue_of_closed {q : Queue} (h : q.closed = true) (cs : List Chunk) :
    q.enqueue cs = q := by
  simp [enqueue, h]

/-- An open queue takes what it is given, at the end. -/
lemma chunks_enqueue {q : Queue} (h : q.closed = false) (cs : List Chunk) :
    (q.enqueue cs).chunks = q.chunks ++ cs := by
  simp [enqueue, h]

@[simp] lemma closed_read (size : ℕ) (waker : Option Waker) :
    (q.read size waker).2.closed = q.closed := by
  unfold read
  split
  · rfl
  · split
    · split <;> rfl
    · rfl

@[simp] lemma lastCall_read (size : ℕ) (waker : Option Waker) :
    (q.read size waker).2.lastCall = q.lastCall := by
  unfold read
  split
  · rfl
  · split
    · split <;> rfl
    · rfl

lemma suffix_more (size gathered : ℕ) (cs : List Chunk) : (more size gathered cs).2 <:+ cs := by
  induction cs generalizing gathered with
  | nil => exact List.suffix_refl _
  | cons c rest ih =>
      unfold more
      split
      · exact (ih _).trans (List.suffix_cons c rest)
      · exact List.suffix_refl _

/-- A read only takes away, and at the front. -/
lemma chunks_read_suffix (size : ℕ) (waker : Option Waker) :
    (q.read size waker).2.chunks <:+ q.chunks := by
  unfold read
  split
  · exact List.suffix_refl _
  · split
    · next heq => split <;> rw [heq]
    · next first rest heq =>
        rw [heq]
        exact (suffix_more _ _ _).trans (List.suffix_cons first rest)

end Queue

/-! ## Joining -/

namespace Stream

variable {l : Listener}

/-- A listener that only wants its burst. -/
lemma settle_of_once (h : l.options.pumpAndFinish = true) (offset : ℕ) (chunks : List Chunk) :
    settle l offset chunks = { l.enqueue chunks with
      phase := .streaming, queue := (l.queue.enqueue chunks).finish } :=
  if_pos h

/-- A listener that stays. -/
lemma settle_of_stay (h : l.options.pumpAndFinish = false) (offset : ℕ) (chunks : List Chunk) :
    settle l offset chunks = { l.enqueue chunks with
      phase := .streaming, seat := some ⟨offset, chunks.getLast?.map Chunk.ts⟩ } :=
  if_neg (by simp [Listener.enqueue, h])

variable (l) (offset : ℕ) (chunks : List Chunk)

@[simp] lemma phase_settle : (settle l offset chunks).phase = .streaming := by
  cases h : l.options.pumpAndFinish with
  | true => rw [settle_of_once h]
  | false => rw [settle_of_stay h]

@[simp] lemma id_settle : (settle l offset chunks).id = l.id := by
  cases h : l.options.pumpAndFinish with
  | true => rw [settle_of_once h]; rfl
  | false => rw [settle_of_stay h]; rfl

lemma seat_settle : (settle l offset chunks).seat =
    if l.options.pumpAndFinish then l.seat else some ⟨offset, chunks.getLast?.map Chunk.ts⟩ := by
  cases h : l.options.pumpAndFinish with
  | true => rw [settle_of_once h]; rfl
  | false => rw [settle_of_stay h]; rfl

lemma queue_settle : (settle l offset chunks).queue =
    if l.options.pumpAndFinish then (l.queue.enqueue chunks).finish
    else l.queue.enqueue chunks := by
  cases h : l.options.pumpAndFinish with
  | true => rw [settle_of_once h]; rfl
  | false => rw [settle_of_stay h]; rfl

lemma closed_settle : (settle l offset chunks).queue.closed = l.queue.closed := by
  rw [queue_settle]
  split <;> simp [Queue.finish]

lemma lastCall_settle : (settle l offset chunks).queue.lastCall =
    (l.queue.lastCall || l.options.pumpAndFinish) := by
  rw [queue_settle]
  split <;> simp_all [Queue.finish]

lemma chunks_settle {l : Listener} (hopen : l.queue.closed = false) (offset : ℕ)
    (chunks : List Chunk) : (settle l offset chunks).queue.chunks = l.queue.chunks ++ chunks := by
  rw [queue_settle]
  split
  · exact (Queue.chunks_wake _).trans (Queue.chunks_enqueue hopen _)
  · exact Queue.chunks_enqueue hopen _

/-- **What it takes to join.**  The stream is in use, no preload is running, and the offset can be
looked up; then the listener settles there. -/
lemma attach_eq_ok_iff {s : Stream} {l l' : Listener} {seeded : ℕ} :
    s.attach l = .ok (seeded, l') ↔
      s.destroyed = false ∧ s.loading = false ∧ ∃ offset, s.seatOffset l.options = .ok offset ∧
        seeded = (s.seed l.options offset).length ∧
        l' = settle l offset (s.seed l.options offset) := by
  unfold attach
  cases s.destroyed <;> cases s.loading <;> cases s.seatOffset l.options <;> simp [eq_comm]

/-- What joining does to the queue. -/
lemma queue_attach {s : Stream} {l l' : Listener} {seeded : ℕ}
    (h : s.attach l = .ok (seeded, l')) :
    ∃ chunks, l'.queue = (l.queue.enqueue chunks).finish ∨ l'.queue = l.queue.enqueue chunks := by
  obtain ⟨-, -, offset, -, -, rfl⟩ := attach_eq_ok_iff.mp h
  refine ⟨s.seed l.options offset, ?_⟩
  rw [queue_settle]
  split
  · exact Or.inl rfl
  · exact Or.inr rfl

/-- A first poll that fails says why, and leaves the queue alone. -/
lemma exists_pollListener_of_error {s : Stream} {l : Listener} {e : Refusal}
    (hnew : l.phase = .seeding) (h : s.attach l = .error e) (waker : Waker) :
    ∃ l', s.pollListener waker l = (.failed e, l') ∧ l'.queue = l.queue := by
  simp only [pollListener, pumpListener, hnew, if_true, h]
  cases e with
  | stream e => exact ⟨_, rfl, rfl⟩
  | fault f => exact ⟨_, rfl, rfl⟩

end Stream

/-! ## Listeners -/

namespace Listener

/-- A listener that is not seeded yet has no seat, and its queue is open. -/
def Sound (l : Listener) : Prop := l.phase = .seeding → l.seat = none ∧ l.queue.closed = false

variable {l : Listener}

/-- An operation that keeps the phase, the seat and whether the queue is open. -/
lemma Sound.of_eq {l' : Listener} (h : l.Sound) (hp : l'.phase = l.phase) (hs : l'.seat = l.seat)
    (hc : l'.queue.closed = l.queue.closed) : l'.Sound := by
  intro hl
  rw [hs, hc]
  exact h (hp ▸ hl)

lemma sound_of_phase_ne (h : l.phase ≠ .seeding) : l.Sound := fun hl => absurd hl h

lemma Sound.phase_ne_of_isSeated (h : l.Sound) (hs : l.isSeated = true) : l.phase ≠ .seeding := by
  intro hl
  rw [isSeated, (h hl).1] at hs
  cases hs

lemma Sound.enqueue (h : l.Sound) (cs : List Chunk) : (l.enqueue cs).Sound :=
  h.of_eq rfl rfl (Queue.closed_enqueue _ _)

lemma Sound.takeInterval (h : l.Sound) : l.takeInterval.2.Sound := h.of_eq rfl rfl rfl

lemma Sound.read (h : l.Sound) (size : ℕ) : (l.read size).2.Sound := by
  unfold Listener.read
  split
  · exact h
  · exact h.of_eq rfl rfl (Queue.closed_read _ _ _)
  · exact h

lemma Sound.close (h : l.Sound) : l.close.Sound := by
  unfold Listener.close
  split
  · exact h
  · exact sound_of_phase_ne (by simp)

lemma Sound.unseat (h : l.Sound) (hs : l.isSeated = true) : l.unseat.Sound :=
  sound_of_phase_ne (h.phase_ne_of_isSeated hs)

lemma Sound.forgetCursor (h : l.Sound) : l.forgetCursor.Sound := by
  intro hl
  obtain ⟨hseat, hopen⟩ := h hl
  exact ⟨by simp [Listener.forgetCursor, hseat], hopen⟩

lemma Sound.deliverTo (h : l.Sound) (store : Store) : (Stream.deliverTo store l).Sound := by
  cases hseat : l.seat with
  | none => simpa [Stream.deliverTo, hseat] using h
  | some seat =>
      have hphase : l.phase ≠ .seeding :=
        h.phase_ne_of_isSeated (by simp [isSeated, hseat])
      refine sound_of_phase_ne ?_
      simp only [Stream.deliverTo, hseat]
      split <;> exact hphase

lemma Sound.pump (h : l.Sound) (s : Stream) : (s.pumpListener l).2.Sound := by
  unfold Stream.pumpListener
  split
  · split
    · next hattach =>
        -- an attached listener streams, one-shot or not
        obtain ⟨-, -, offset, -, -, rfl⟩ := Stream.attach_eq_ok_iff.mp hattach
        exact sound_of_phase_ne (by simp)
    · exact h
  · exact h

lemma Sound.poll (h : l.Sound) (s : Stream) (waker : Waker) :
    (s.pollListener waker l).2.Sound := by
  have hread : ∀ {l' : Listener}, l'.Sound → (Stream.readFor l' waker).2.Sound := fun h' =>
    h'.of_eq rfl rfl (Queue.closed_read _ _ _)
  have hpump := h.pump s
  unfold Stream.pollListener
  split
  · exact h
  · exact hread h
  · split
    · next heq => rw [heq] at hpump; exact hread hpump
    · exact sound_of_phase_ne (by simp)
    · next heq => rw [heq] at hpump; exact hpump

/-- The number of a listener never changes. -/
lemma id_apply (s : Stream) (l : Listener) (a : Stream.ListenerAction) :
    (a.apply s l).id = l.id := by
  have hpump : (s.pumpListener l).2.id = l.id := by
    unfold Stream.pumpListener
    split
    · split
      · next hattach =>
          obtain ⟨-, -, offset, -, -, rfl⟩ := Stream.attach_eq_ok_iff.mp hattach
          exact Stream.id_settle _ _ _
      · rfl
    · rfl
  cases a with
  | pump => exact hpump
  | poll waker =>
      simp only [Stream.ListenerAction.apply, Stream.pollListener]
      split
      · rfl
      · rfl
      · split <;> next heq => rw [heq] at hpump; exact hpump
  | read size => simp only [Stream.ListenerAction.apply, read]; split <;> rfl
  | enqueue cs => rfl
  | takeInterval => rfl
  | leave => simp only [Stream.ListenerAction.apply, close]; split <;> rfl

lemma id_deliverTo (store : Store) (l : Listener) : (Stream.deliverTo store l).id = l.id := by
  unfold Stream.deliverTo
  split
  · rfl
  · split <;> rfl

/-- Whatever a listener does, it stays sound. -/
lemma Sound.apply (h : l.Sound) (s : Stream) (a : Stream.ListenerAction) : (a.apply s l).Sound := by
  cases a with
  | pump => exact h.pump s
  | poll waker => exact h.poll s waker
  | read size => exact h.read size
  | enqueue cs => exact h.enqueue cs
  | takeInterval => exact h.takeInterval
  | leave => exact h.close

end Listener

end RewindRelay
