import RewindRelay.Proofs.Listener.Basic
/-!
# What the queue of a listener delivers

The stream fills a queue and the listener empties it, and their calls come in any order.  Until the
queue is closed no chunk that is offered to it gets lost: it has been delivered, or it waits.  The
counter of waiting bytes is kept beside the chunks and is what a slow listener is judged by, so it
has to be exact after every call.

* `Queue.Call`, `Queue.perform` — the calls on a queue, in any order.
* `Queue.Batch`, `Queue.Reads` — what one read takes, and what it finds.
* `Queue.reads_read` — **a read takes whole chunks off the front**, as many as its size asks for.
* `Queue.read_of_lastCall` — reads of a queue to which nothing will be added.
* `Queue.Ledger.call` — **every call keeps the books right.**
* `Queue.accounted_perform` — **a queue loses nothing and counts exactly**, whatever the calls.
-/

namespace RewindRelay

/-! ## Sizes and statistics -/

namespace Chunk

lemma totalSize_append (cs cs' : List Chunk) :
    totalSize (cs ++ cs') = totalSize cs + totalSize cs' := by
  induction cs with
  | nil => simp [totalSize]
  | cons c rest ih => simp only [List.cons_append, totalSize, ih, Nat.add_assoc]

end Chunk

/-- The bytes that a read gives. -/
def ReadOutcome.bytes : ReadOutcome → Bytes
  | .data bytes => bytes
  | .idle => []
  | .finished => []

namespace Queue

open Chunk (totalSize totalSize_append)

lemma deliver_append (s : ListenStats) (cs cs' : List Chunk) :
    deliver s (cs ++ cs') = deliver (deliver s cs) cs' :=
  List.foldl_append

lemma bytes_deliver (s : ListenStats) (cs : List Chunk) :
    (deliver s cs).bytes = s.bytes + totalSize cs := by
  induction cs generalizing s with
  | nil => rfl
  | cons c rest ih =>
      have hfirst : (s.record c.size c.duration).bytes = s.bytes + c.size := rfl
      rw [deliver, List.foldl_cons, ← deliver, ih, hfirst, totalSize, Nat.add_assoc]

lemma chunks_deliver (s : ListenStats) (cs : List Chunk) :
    (deliver s cs).chunks = s.chunks + cs.length := by
  induction cs generalizing s with
  | nil => rfl
  | cons c rest ih =>
      have hfirst : (s.record c.size c.duration).chunks = s.chunks + 1 := rfl
      rw [deliver, List.foldl_cons, ← deliver, ih, hfirst, List.length_cons]
      omega

/-! ## One read -/

/-- What a read of this size takes off the front of a queue, and what it leaves there. -/
structure Batch (size : ℕ) (taken left : List Chunk) : Prop where
  ne_nil : taken ≠ []
  /-- It stops as soon as it has the size. -/
  short : ∀ front, front <+: taken → front ≠ [] → front ≠ taken → totalSize front < size
  reached : size ≤ totalSize taken ∨ left = []

lemma more_append (size gathered : ℕ) (cs : List Chunk) :
    (more size gathered cs).1 ++ (more size gathered cs).2 = cs := by
  induction cs generalizing gathered with
  | nil => rfl
  | cons c rest ih =>
      unfold more
      split
      · exact congrArg (c :: ·) (ih _)
      · rfl

lemma reached_more (size gathered : ℕ) (cs : List Chunk) :
    size ≤ gathered + totalSize (more size gathered cs).1 ∨ (more size gathered cs).2 = [] := by
  induction cs generalizing gathered with
  | nil => exact Or.inr rfl
  | cons c rest ih =>
      unfold more
      split
      · rw [totalSize, ← Nat.add_assoc]
        exact ih _
      · next hlt => exact Or.inl (Nat.le_add_right_of_le (Nat.le_of_not_lt hlt))

/-- Each chunk is taken because those before it fall short. -/
lemma short_more (size gathered : ℕ) (cs : List Chunk) {front : List Chunk}
    (hfront : front <+: (more size gathered cs).1) (hne : front ≠ (more size gathered cs).1) :
    gathered + totalSize front < size := by
  induction cs generalizing gathered front with
  | nil => exact absurd (List.prefix_nil.mp hfront) hne
  | cons c rest ih =>
      unfold more at hfront hne
      split at hfront
      · next hlt =>
          rw [if_pos hlt] at hne
          cases front with
          | nil => exact hlt
          | cons d front =>
              obtain ⟨rfl, hfront⟩ := List.cons_prefix_cons.mp hfront
              rw [totalSize, ← Nat.add_assoc]
              exact ih _ hfront fun heq => hne (congrArg (d :: ·) heq)
      · next hlt =>
          rw [if_neg hlt] at hne
          exact absurd (List.prefix_nil.mp hfront) hne

lemma batch_more (size : ℕ) (first : Chunk) (rest : List Chunk) :
    Batch size (first :: (more size first.size rest).1) (more size first.size rest).2 where
  ne_nil := List.cons_ne_nil _ _
  short := by
    intro front hfront hnil hne
    obtain ⟨c, front, rfl⟩ := List.exists_cons_of_ne_nil hnil
    obtain ⟨rfl, hfront⟩ := List.cons_prefix_cons.mp hfront
    exact short_more _ _ _ hfront fun heq => hne (congrArg (c :: ·) heq)
  reached := reached_more _ _ _

/-- What a read of this size finds in a queue, and the queue after it. -/
inductive Reads (q : Queue) (size : ℕ) : ReadOutcome → Queue → Prop
  | shut (closed : q.closed = true) : Reads q size .finished q
  | drained (isOpen : q.closed = false) (empty : q.chunks = []) (last : q.lastCall = true) :
      Reads q size .finished q
  | idle (isOpen : q.closed = false) (empty : q.chunks = []) (last : q.lastCall = false)
      (waker : Option Waker) : Reads q size .idle { q with waker }
  /-- The bytes are counted down by what was taken, which is no more than there was. -/
  | data (isOpen : q.closed = false) {taken left : List Chunk} (front : q.chunks = taken ++ left)
      (batch : Batch size taken left) (waiting : ℕ)
      (counted : q.queuedBytes = totalSize taken + waiting) :
      Reads q size (.data (taken.flatMap Chunk.data))
        { q with
          chunks := left
          queuedBytes := waiting
          total := deliver q.total taken
          interval := deliver q.interval taken }

/-- **A read takes whole chunks off the front**, as many as its size asks for. -/
theorem reads_read {q : Queue} (hqueued : q.queuedBytes = totalSize q.chunks) (size : ℕ)
    (waker : Option Waker) : Reads q size (q.read size waker).1 (q.read size waker).2 := by
  unfold read
  split
  · next hclosed => exact .shut hclosed
  · next hopen =>
      rw [Bool.not_eq_true] at hopen
      split
      · next hempty =>
          split
          · next hlast => exact .drained hopen hempty hlast
          · next hlast => exact .idle hopen hempty (Bool.not_eq_true _ ▸ hlast) _
      · next first rest hcons =>
          have hfront : q.chunks = (first :: (more size first.size rest).1) ++
              (more size first.size rest).2 := by
            rw [hcons, List.cons_append, more_append]
          have hcounted := hqueued
          rw [hfront, totalSize_append] at hcounted
          refine .data hopen hfront (batch_more _ _ _) _ ?_
          omega

/-- A read of a queue to which nothing will be added: as long as there are chunks it takes some. -/
lemma read_of_lastCall {q : Queue} (hopen : q.closed = false) (hlast : q.lastCall = true) (size : ℕ)
    (waker : Option Waker) :
    q.chunks = [] ∧ q.read size waker = (.finished, q) ∨
      ∃ taken, taken ≠ [] ∧ q.chunks = taken ++ (q.read size waker).2.chunks ∧
        (q.read size waker).1 = .data (taken.flatMap Chunk.data) := by
  cases hchunks : q.chunks with
  | nil => exact Or.inl ⟨rfl, by simp [read, hopen, hlast, hchunks]⟩
  | cons first rest =>
      refine Or.inr ⟨first :: (more size first.size rest).1, List.cons_ne_nil _ _, ?_, ?_⟩
      · simp [read, hopen, hchunks, more_append]
      · simp [read, hopen, hchunks]

/-! ## Calls -/

/-- A call on a queue, by the stream or by its listener. -/
inductive Call
  | enqueue (chunks : List Chunk)
  | finish
  | close
  | read (size : ℕ) (waker : Option Waker)
  | takeInterval

/-- What a call reads, if it is a read, and the queue after it. -/
def Call.perform (q : Queue) : Call → Option ReadOutcome × Queue
  | .enqueue chunks => (none, q.enqueue chunks)
  | .finish => (none, q.finish)
  | .close => (none, q.close)
  | .read size waker => (some (q.read size waker).1, (q.read size waker).2)
  | .takeInterval => (none, q.takeInterval.2)

/-- What the calls read, one after the other, and the queue after them. -/
def perform (q : Queue) (calls : List Call) : List ReadOutcome × Queue :=
  calls.foldl (fun x call => (x.1 ++ (call.perform x.2).1.toList, (call.perform x.2).2)) ([], q)

/-- The chunks that a call offers. -/
def Call.chunks : Call → List Chunk
  | .enqueue chunks => chunks
  | _ => []

/-- The chunks that are offered before the queue is closed. -/
def offered : List Call → List Chunk
  | [] => []
  | .close :: _ => []
  | call :: rest => call.chunks ++ offered rest

lemma perform_concat (q : Queue) (calls : List Call) (call : Call) :
    q.perform (calls ++ [call]) =
      ((q.perform calls).1 ++ (call.perform (q.perform calls).2).1.toList,
        (call.perform (q.perform calls).2).2) := by
  rw [perform, List.foldl_append]
  rfl

lemma offered_cons {call : Call} (hcall : call ≠ .close) (rest : List Call) :
    offered (call :: rest) = call.chunks ++ offered rest := by
  cases call <;> first | rfl | exact absurd rfl hcall

lemma offered_concat_of_closed {calls : List Call} (h : .close ∈ calls) (call : Call) :
    offered (calls ++ [call]) = offered calls := by
  induction calls with
  | nil => cases h
  | cons first rest ih =>
      by_cases hfirst : first = .close
      · subst hfirst
        rfl
      · have hrest : .close ∈ rest := (List.mem_cons.mp h).resolve_left fun heq => hfirst heq.symm
        rw [List.cons_append, offered_cons hfirst, offered_cons hfirst, ih hrest]

lemma offered_concat_of_open {calls : List Call} (h : .close ∉ calls) (call : Call) :
    offered (calls ++ [call]) = offered calls ++ call.chunks := by
  induction calls with
  | nil => cases call <;> simp [offered, Call.chunks]
  | cons first rest ih =>
      rw [List.mem_cons, not_or] at h
      have hfirst : first ≠ .close := fun heq => h.1 heq.symm
      rw [List.cons_append, offered_cons hfirst, offered_cons hfirst, ih h.2, List.append_assoc]

/-- A call that offers nothing. -/
lemma offered_concat (call : Call) (h : call.chunks = []) (calls : List Call) :
    offered (calls ++ [call]) = offered calls := by
  by_cases hmem : .close ∈ calls
  · exact offered_concat_of_closed hmem call
  · rw [offered_concat_of_open hmem, h, List.append_nil]

/-! ## The books -/

@[simp] lemma queuedBytes_wake (q : Queue) : q.wake.queuedBytes = q.queuedBytes := by
  unfold wake
  split <;> rfl

@[simp] lemma total_wake (q : Queue) : q.wake.total = q.total := by
  unfold wake
  split <;> rfl

/-- What has become of the chunks that the calls offered, when these are the ones delivered. -/
structure Ledger (calls : List Call) (outcomes : List ReadOutcome) (q : Queue)
    (delivered : List Chunk) : Prop where
  given : outcomes.flatMap ReadOutcome.bytes = delivered.flatMap Chunk.data
  inOrder : delivered <+: offered calls
  /-- What was offered and is not delivered waits. -/
  kept : .close ∉ calls → offered calls = delivered ++ q.chunks
  cleared : .close ∈ calls → q.chunks = []
  queued : q.queuedBytes = totalSize q.chunks
  total : q.total = deliver {} delivered
  closed : q.closed = true ↔ .close ∈ calls

namespace Ledger

variable {calls : List Call} {outcomes : List ReadOutcome} {q q' : Queue}
  {delivered : List Chunk}

lemma isOpen (h : Ledger calls outcomes q delivered) (hopen : q.closed = false) :
    .close ∉ calls := fun hmem => by
  rw [h.closed.mpr hmem] at hopen
  cases hopen

/-- A call that offers nothing, delivers nothing and does not close the queue. -/
lemma same (h : Ledger calls outcomes q delivered) (call : Call) (q' : Queue)
    (hcall : call ≠ .close) (hoffers : call.chunks = []) (hchunks : q'.chunks = q.chunks)
    (hqueued : q'.queuedBytes = q.queuedBytes) (htotal : q'.total = q.total)
    (hclosed : q'.closed = q.closed) : Ledger (calls ++ [call]) outcomes q' delivered := by
  have hoffered := offered_concat call hoffers calls
  have hends : .close ∈ calls ++ [call] ↔ .close ∈ calls := by
    rw [List.mem_append, List.mem_singleton, or_iff_left fun heq => hcall heq.symm]
  exact
    { given := h.given
      inOrder := hoffered ▸ h.inOrder
      kept := by rw [hends, hoffered, hchunks]; exact h.kept
      cleared := by rw [hends, hchunks]; exact h.cleared
      queued := by rw [hqueued, hchunks]; exact h.queued
      total := htotal.trans h.total
      closed := by rw [hends, hclosed]; exact h.closed }

lemma enqueue (h : Ledger calls outcomes q delivered) (cs : List Chunk) :
    Ledger (calls ++ [.enqueue cs]) outcomes (q.enqueue cs) delivered := by
  have hends : .close ∈ calls ++ [.enqueue cs] ↔ .close ∈ calls := by simp
  have hqueued : (q.enqueue cs).queuedBytes = totalSize (q.enqueue cs).chunks := by
    unfold Queue.enqueue
    split
    · exact h.queued
    · simp only [queuedBytes_wake, chunks_wake, totalSize_append, h.queued]
  have htotal : (q.enqueue cs).total = q.total := by
    unfold Queue.enqueue
    split
    · rfl
    · rw [total_wake]
  have hclosed : (q.enqueue cs).closed = true ↔ .close ∈ calls ++ [.enqueue cs] := by
    rw [closed_enqueue, hends]
    exact h.closed
  cases hq : q.closed with
  | true =>
      have hmem := h.closed.mp hq
      have hoffered := offered_concat_of_closed hmem (.enqueue cs)
      exact
        { given := h.given
          inOrder := hoffered ▸ h.inOrder
          kept := fun hnot => absurd (hends.mpr hmem) hnot
          cleared := fun _ => by rw [enqueue_of_closed hq]; exact h.cleared hmem
          queued := hqueued
          total := htotal.trans h.total
          closed := hclosed }
  | false =>
      have hnot := h.isOpen hq
      have hoffered : offered (calls ++ [.enqueue cs]) = offered calls ++ cs :=
        offered_concat_of_open hnot (.enqueue cs)
      exact
        { given := h.given
          inOrder := by rw [hoffered]; exact h.inOrder.trans (List.prefix_append _ _)
          kept := fun _ => by
            rw [hoffered, chunks_enqueue hq, h.kept hnot, List.append_assoc]
          cleared := fun hmem => absurd (hends.mp hmem) hnot
          queued := hqueued
          total := htotal.trans h.total
          closed := hclosed }

lemma close (h : Ledger calls outcomes q delivered) :
    Ledger (calls ++ [.close]) outcomes q.close delivered := by
  have hmem : .close ∈ calls ++ [.close] := by simp
  have hoffered := offered_concat .close rfl calls
  exact
    { given := h.given
      inOrder := hoffered ▸ h.inOrder
      kept := fun hnot => absurd hmem hnot
      cleared := fun _ => by rw [Queue.close, chunks_wake]
      queued := by rw [Queue.close, queuedBytes_wake, chunks_wake]; rfl
      total := by rw [Queue.close, total_wake]; exact h.total
      closed := by rw [Queue.close, closed_wake]; exact iff_of_true rfl hmem }

lemma read (h : Ledger calls outcomes q delivered) {size : ℕ} {waker : Option Waker}
    {outcome : ReadOutcome} (hreads : Reads q size outcome q') :
    ∃ delivered', Ledger (calls ++ [.read size waker]) (outcomes ++ [outcome]) q' delivered' := by
  have hnone : outcome.bytes = [] →
      (outcomes ++ [outcome]).flatMap ReadOutcome.bytes = delivered.flatMap Chunk.data :=
    fun hbytes => by
      rw [List.flatMap_append, h.given, List.flatMap_singleton, hbytes, List.append_nil]
  cases hreads with
  | shut _ =>
      exact ⟨_, { h.same (.read size waker) q nofun rfl rfl rfl rfl rfl with
        given := hnone rfl }⟩
  | drained _ _ _ =>
      exact ⟨_, { h.same (.read size waker) q nofun rfl rfl rfl rfl rfl with
        given := hnone rfl }⟩
  | idle _ _ _ _ =>
      exact ⟨_, { h.same (.read size waker) { q with waker } nofun rfl rfl rfl
        rfl rfl with given := hnone rfl }⟩
  | @data hopen taken left hfront hbatch waiting hcounted =>
      have hnot := h.isOpen hopen
      have hends : .close ∈ calls ++ [.read size waker] ↔ .close ∈ calls := by simp
      have hoffered : offered (calls ++ [.read size waker]) = delivered ++ taken ++ left := by
        rw [offered_concat _ rfl, h.kept hnot, hfront, List.append_assoc]
      have hqueued := h.queued
      rw [hfront, totalSize_append, hcounted] at hqueued
      exact ⟨delivered ++ taken,
        { given := by
            rw [List.flatMap_append, h.given, List.flatMap_singleton, List.flatMap_append]
            rfl
          inOrder := by rw [hoffered]; exact List.prefix_append _ _
          kept := fun _ => hoffered
          cleared := fun hmem => absurd (hends.mp hmem) hnot
          queued := Nat.add_left_cancel hqueued
          total := by rw [deliver_append, ← h.total]
          closed := by rw [hends]; exact h.closed }⟩

/-- **Every call keeps the books right.** -/
theorem call (h : Ledger calls outcomes q delivered) (call : Call) :
    ∃ delivered', Ledger (calls ++ [call]) (outcomes ++ (call.perform q).1.toList)
      (call.perform q).2 delivered' := by
  cases call with
  | enqueue cs => exact ⟨delivered, by simpa [Call.perform] using h.enqueue cs⟩
  | finish =>
      refine ⟨delivered, ?_⟩
      simpa [Call.perform] using h.same .finish q.finish nofun rfl
        (chunks_wake _) (queuedBytes_wake _) (total_wake _) (closed_wake _)
  | close => exact ⟨delivered, by simpa [Call.perform] using h.close⟩
  | read size waker => exact h.read (reads_read h.queued size waker)
  | takeInterval =>
      refine ⟨delivered, ?_⟩
      simpa [Call.perform] using h.same .takeInterval q.takeInterval.2 nofun rfl
        rfl rfl rfl rfl

end Ledger

/-- The books of a new queue after any calls. -/
lemma exists_ledger (calls : List Call) :
    ∃ delivered, Ledger calls (perform {} calls).1 (perform {} calls).2 delivered := by
  induction calls using List.reverseRecOn with
  | nil =>
      exact ⟨[],
        { given := rfl
          inOrder := List.prefix_refl _
          kept := fun _ => rfl
          cleared := nofun
          queued := rfl
          total := rfl
          closed := iff_of_false nofun nofun }⟩
  | append_singleton calls call ih =>
      obtain ⟨delivered, h⟩ := ih
      rw [perform_concat]
      exact h.call call

/-! ## All calls -/

/-- A queue that loses nothing and counts exactly. -/
structure Accounted (calls : List Call) (outcomes : List ReadOutcome) (q : Queue)
    (delivered : List Chunk) : Prop extends Ledger calls outcomes q delivered where
  bytes : q.total.bytes = totalSize delivered
  chunks : q.total.chunks = delivered.length
  balance : .close ∉ calls → totalSize (offered calls) = q.total.bytes + q.queuedBytes
  /-- What the next read finds, of any size. -/
  next : ∀ size waker, Reads q size (q.read size waker).1 (q.read size waker).2
  /-- A closed queue gives nothing and takes nothing. -/
  ended : .close ∈ calls → q.queuedBytes = 0 ∧
    (∀ size waker, q.read size waker = (.finished, q)) ∧ ∀ cs, q.enqueue cs = q

/-- **A queue loses nothing and counts exactly**, in whatever order the stream and the listener call
it.  The bytes that the reads have given are the payloads of the first chunks that were offered; the
other ones wait until the queue is closed; and the counters say how many bytes and chunks there are
of each. -/
theorem accounted_perform (calls : List Call) :
    ∃ delivered, Accounted calls (perform {} calls).1 (perform {} calls).2 delivered := by
  obtain ⟨delivered, h⟩ := exists_ledger calls
  have hbytes : (perform {} calls).2.total.bytes = totalSize delivered := by
    rw [h.total, bytes_deliver, Nat.zero_add]
  refine ⟨delivered,
    { h with
      bytes := hbytes
      chunks := by rw [h.total, chunks_deliver, Nat.zero_add]
      balance := fun hnot => by rw [h.kept hnot, totalSize_append, hbytes, h.queued]
      next := reads_read h.queued
      ended := fun hmem => ?_ }⟩
  have hclosed := h.closed.mpr hmem
  refine ⟨by rw [h.queued, h.cleared hmem]; rfl, fun size waker => ?_, enqueue_of_closed hclosed⟩
  rw [Queue.read, if_pos hclosed]

end Queue

end RewindRelay
