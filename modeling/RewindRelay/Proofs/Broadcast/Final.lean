import RewindRelay.Proofs.Broadcast.Download
/-!
# After the end

A listener finds the end in three ways: it has left, its queue was closed, or it has read all that
it was given and no more was meant to come.  From the first two there is no way back.  The third is
only a mark, which keeps nobody from adding chunks: what is queued by hand after the end is read
after the end.  Nothing else brings a listener back.

* `Queue.IsOver`, `Listener.IsOver` — a queue and a listener at the end.
* `Broadcast.Over` — whatever the listener reads next, it finds the end.
* `Broadcast.Refills` — chunks are queued by hand for a listener whose queue was not closed.
* `Broadcast.over_step_iff` — **only that brings a listener back**, of all events.
* `Broadcast.Reachable.final_iff` — **when the end is final.**
-/

namespace RewindRelay

/-! ## At the end -/

namespace Queue

variable {q : Queue}

/-- A read finds the end: the queue is closed, or it is empty and on its last call. -/
def IsOver (q : Queue) : Prop := q.closed = true ∨ q.chunks = [] ∧ q.lastCall = true

/-- The end is found over and over. -/
lemma IsOver.read (h : q.IsOver) (size : ℕ) (waker : Option Waker) :
    q.read size waker = (.finished, q) := by
  unfold Queue.read
  rcases h with hclosed | ⟨hnil, hlast⟩
  · rw [if_pos hclosed]
  · simp only [hnil, hlast, if_true, ite_self]

lemma isOver_of_read {size : ℕ} {waker : Option Waker} (h : (q.read size waker).1 = .finished) :
    q.IsOver := by
  unfold Queue.read at h
  split at h
  · next hclosed => exact Or.inl hclosed
  · split at h
    · next hnil =>
        split at h
        · next hlast => exact Or.inr ⟨hnil, hlast⟩
        · cases h
    · cases h

end Queue

namespace Listener

variable {l : Listener}

/-- The listener has left, or its queue is at its end. -/
def IsOver (l : Listener) : Prop :=
  l.phase = .closed ∨ l.phase = .streaming ∧ l.queue.IsOver

/-- Whoever has a seat is not at the end. -/
lemma Regular.unseated (h : l.Regular) (hover : l.IsOver) : l.isSeated = false := by
  by_contra hseated
  obtain ⟨hphase, hopen, hlast⟩ := h.seated (Bool.not_eq_false _ ▸ hseated)
  rcases hover with hleft | ⟨-, hclosed | ⟨-, hlast'⟩⟩
  · rw [hphase] at hleft
    cases hleft
  · rw [hopen] at hclosed
    cases hclosed
  · rw [hlast] at hlast'
    cases hlast'

lemma IsOver.read (h : l.IsOver) (size : ℕ) : l.read size = (.finished, l) := by
  obtain ⟨id, options, readSize, phase, queue, seat⟩ := l
  rcases h with hphase | ⟨hphase, hqueue⟩ <;> obtain rfl := hphase
  · rfl
  · simp only [Listener.read, hqueue.read]

lemma IsOver.poll (h : l.IsOver) (s : Stream) (waker : Waker) :
    s.pollListener waker l = (.finished, l) := by
  obtain ⟨id, options, readSize, phase, queue, seat⟩ := l
  rcases h with hphase | ⟨hphase, hqueue⟩ <;> obtain rfl := hphase
  · rfl
  · simp only [Stream.pollListener, Stream.readFor, hqueue.read, Stream.PollOutcome.ofRead]

lemma isOver_of_read {size : ℕ} (h : (l.read size).1 = .finished) : l.IsOver := by
  cases hphase : l.phase with
  | seeding => simp only [Listener.read, hphase, reduceCtorEq] at h
  | streaming =>
      simp only [Listener.read, hphase] at h
      exact Or.inr ⟨hphase, Queue.isOver_of_read h⟩
  | closed => exact Or.inl hphase

lemma isOver_of_readFor {waker : Waker} (hphase : l.phase = .streaming)
    (h : (Stream.readFor l waker).1 = .finished) : (Stream.readFor l waker).2.IsOver := by
  have hqueue : l.queue.IsOver :=
    Queue.isOver_of_read (Stream.PollOutcome.ofRead_eq_finished_iff.mp h)
  refine Or.inr ⟨hphase, ?_⟩
  simpa only [Stream.readFor, hqueue.read] using hqueue

/-- A first poll may find the end at once, where there was nothing to give. -/
lemma isOver_of_poll {s : Stream} {waker : Waker} (h : (s.pollListener waker l).1 = .finished) :
    (s.pollListener waker l).2.IsOver := by
  cases hphase : l.phase with
  | closed =>
      have hover : l.IsOver := Or.inl hphase
      rwa [hover.poll]
  | streaming =>
      simp only [Stream.pollListener, hphase] at h ⊢
      exact isOver_of_readFor hphase h
  | seeding =>
      cases hattach : s.attach l with
      | error e =>
          obtain ⟨l', hpoll, -⟩ := Stream.exists_pollListener_of_error hphase hattach waker
          rw [hpoll] at h
          cases h
      | ok result =>
          have hjoined := Stream.phase_attach hattach
          simp only [Stream.pollListener, Stream.pumpListener, hphase, if_true, hattach] at h ⊢
          exact isOver_of_readFor hjoined h

/-! ## What a listener does at the end -/

/-- Chunks that are queued by hand are read, unless the queue was closed or the listener has
left. -/
lemma IsOver.enqueue_iff (h : l.IsOver) (cs : List Chunk) :
    (l.enqueue cs).IsOver ↔ ¬ (l.phase = .streaming ∧ l.queue.closed = false ∧ cs ≠ []) := by
  cases hclosed : l.queue.closed with
  | true =>
      rw [Listener.enqueue, Queue.enqueue_of_closed hclosed]
      exact iff_of_true h (by simp)
  | false =>
      rcases h with hphase | ⟨hphase, hover⟩
      · exact iff_of_true (Or.inl hphase) (by simp [hphase])
      · obtain ⟨hnil, hlast⟩ := hover.resolve_left (by simp [hclosed])
        simp [IsOver, Queue.IsOver, Listener.enqueue, hphase, hclosed, hlast, hnil,
          Queue.chunks_enqueue hclosed]

/-- All else that a listener does leaves it at the end. -/
lemma IsOver.apply (h : l.IsOver) (s : Stream) {a : Stream.ListenerAction}
    (ha : ∀ cs, a ≠ .enqueue cs) : (a.apply s l).IsOver := by
  cases a with
  | pump =>
      have hseeded : l.phase ≠ .seeding := by
        rcases h with hphase | ⟨hphase, -⟩ <;> simp [hphase]
      have hpump : s.pumpListener l = (.ok 0, l) := if_neg hseeded
      rwa [Stream.ListenerAction.apply, hpump]
  | poll waker => rwa [Stream.ListenerAction.apply, h.poll]
  | read size => rwa [Stream.ListenerAction.apply, h.read]
  | enqueue cs => exact absurd rfl (ha cs)
  | takeInterval => exact h
  | leave => exact Or.inl l.phase_close

end Listener

namespace Stream

instance (outcome : PollOutcome) : Decidable (outcome = .finished) :=
  match outcome with
  | .finished => isTrue rfl
  | .data _ | .pending | .failed _ => isFalse nofun

/-- What is found as finished has left the listener at the end. -/
lemma ListenerAction.isOver_of_finds {s : Stream} {l : Listener} {a : ListenerAction}
    (h : .finished ∈ a.finds s l) : (a.apply s l).IsOver := by
  cases a with
  | poll waker => exact Listener.isOver_of_poll (List.mem_singleton.mp h).symm
  | read size =>
      have hread := PollOutcome.ofRead_eq_finished_iff.mp (List.mem_singleton.mp h).symm
      have hover := Listener.isOver_of_read hread
      rwa [ListenerAction.apply, hover.read]
  | pump | enqueue _ | takeInterval | leave => cases h

lemma ListenerAction.finds_of_isOver {s : Stream} {l : Listener} {a : ListenerAction}
    (h : l.IsOver) : ∀ outcome ∈ a.finds s l, outcome = .finished := by
  intro outcome houtcome
  cases a with
  | poll waker =>
      rw [List.mem_singleton.mp houtcome, h.poll]
  | read size =>
      rw [List.mem_singleton.mp houtcome, h.read]
      rfl
  | pump | enqueue _ | takeInterval | leave => cases houtcome

end Stream

/-! ## On a stream -/

/-- The chunks that are queued by hand for a listener. -/
def Event.handed (id : ListenerId) : Event → List Chunk
  | .operate (.serve k (.enqueue cs)) => if k = id then cs else []
  | _ => []

namespace Broadcast

variable {C : Codec} {b : Broadcast} {id : ListenerId} {event : Event}

/-- Whatever the listener does next, if it reads it finds the end. -/
def Over (id : ListenerId) (b : Broadcast) : Prop :=
  ∀ event, ∀ outcome ∈ b.finds id event, outcome = .finished

/-- Chunks are queued by hand for a listener that is seeded and whose queue was not closed. -/
def Refills (id : ListenerId) (b : Broadcast) (event : Event) : Prop :=
  ∃ l ∈ b.stream.listener? id,
    l.phase = .streaming ∧ l.queue.closed = false ∧ event.handed id ≠ []

instance (id : ListenerId) (b : Broadcast) (event : Event) : Decidable (Refills id b event) :=
  inferInstanceAs (Decidable (∃ l ∈ b.stream.listener? id, _))

lemma isOwn_cases (h : event.isOwn id = true) :
    (∃ a, event = .operate (.serve id a)) ∨ event = .operate (.drop id) := by
  cases event with
  | start => cases h
  | preload k a => cases h
  | operate op =>
      cases op with
      | serve k a =>
          obtain rfl : k = id := by simpa [Event.isOwn, Stream.Operation.isOwn] using h
          exact Or.inl ⟨a, rfl⟩
      | drop k =>
          obtain rfl : k = id := by simpa [Event.isOwn, Stream.Operation.isOwn] using h
          exact Or.inr rfl
      | _ => cases h

lemma handed_of_not_own (h : event.isOwn id = false) : event.handed id = [] := by
  unfold Event.handed
  split
  · next k cs =>
      have hk : k ≠ id := by simpa [Event.isOwn, Stream.Operation.isOwn] using h
      exact if_neg hk
  · rfl

lemma finds_serve {l : Listener} (hl : b.stream.listener? id = some l)
    (a : Stream.ListenerAction) : b.finds id (.operate (.serve id a)) = a.finds b.stream l := by
  simp only [finds, Event.answer?, Stream.Operation.answer?, if_true, hl, Option.bind_some,
    Stream.ListenerAction.finds]

/-- Whoever finds something is there, and reads. -/
lemma exists_of_mem_finds {outcome : Stream.PollOutcome} (h : outcome ∈ b.finds id event) :
    ∃ l a, event = .operate (.serve id a) ∧ b.stream.listener? id = some l ∧
      outcome ∈ a.finds b.stream l := by
  cases hown : event.isOwn id with
  | false =>
      rw [finds_of_not_own hown] at h
      cases h
  | true =>
      rcases isOwn_cases hown with ⟨a, rfl⟩ | rfl
      · cases hl : b.stream.listener? id with
        | none => simp [finds, Event.answer?, Stream.Operation.answer?, hl] at h
        | some l =>
            rw [finds_serve hl] at h
            exact ⟨l, a, rfl, rfl, h⟩
      · cases h

lemma over_iff : b.Over id ↔ ∀ l, b.stream.listener? id = some l → l.IsOver := by
  constructor
  · intro h l hl
    have hread := h (.operate (.serve id (.read 1))) (.ofRead (l.read 1).1) (by
      rw [finds_serve hl]
      exact List.mem_singleton_self _)
    exact Listener.isOver_of_read (Stream.PollOutcome.ofRead_eq_finished_iff.mp hread)
  · intro h event outcome houtcome
    obtain ⟨l, a, rfl, hl, hfound⟩ := exists_of_mem_finds houtcome
    exact Stream.ListenerAction.finds_of_isOver (h l hl) outcome hfound

/-- **Only chunks that are queued by hand bring a listener back**, of all events. -/
lemma over_step_iff (hregular : b.stream.Regular) (hbarred : b.IsBarred id) (hover : b.Over id)
    (C : Codec) (event : Event) : (b.step C event).Over id ↔ ¬ Refills id b event := by
  rw [over_iff] at hover ⊢
  cases hown : event.isOwn id with
  | false =>
      have hseat : ∀ l, b.stream.listener? id = some l → l.isSeated = false := fun l hl =>
        (hregular.listener id l hl).unseated (hover l hl)
      refine iff_of_true ?_ ?_
      · rcases listener?_step C hown hseat with hsame | ⟨-, options, readSize, hjoined⟩
        · rwa [hsame]
        · -- it had joined before, and no number is given twice
          exact absurd rfl ((hbarred.step hregular C event).seeded _ hjoined)
      · rintro ⟨l, -, -, -, hhanded⟩
        exact hhanded (handed_of_not_own hown)
  | true =>
      rcases isOwn_cases hown with ⟨a, rfl⟩ | rfl
      · rw [Broadcast.step, Stream.Operation.apply, Stream.listener?_act, if_pos rfl]
        cases hl : b.stream.listener? id with
        | none => simp [Refills, hl]
        | some l =>
            have hlover := hover l hl
            cases a with
            | enqueue cs =>
                simpa [Refills, hl, Event.handed, Stream.ListenerAction.apply] using
                  hlover.enqueue_iff cs
            | pump | poll _ | read _ | takeInterval | leave =>
                refine iff_of_true ?_ (by simp [Refills, Event.handed])
                rintro l' ⟨⟩
                exact hlover.apply b.stream (by simp)
      · rw [Broadcast.step, Stream.Operation.apply, Stream.listener?_forget]
        refine iff_of_true (fun l hl => ?_) (by simp [Refills, Event.handed])
        cases hl

/-- Where everything found in a run comes from. -/
lemma exists_of_mem_found {outcome : Stream.PollOutcome} {events : List Event}
    (h : outcome ∈ found C id b events) :
    ∃ past event, past ++ [event] <+: events ∧ outcome ∈ (b.run C past).finds id event := by
  induction events generalizing b with
  | nil => cases h
  | cons event rest ih =>
      rcases List.mem_append.mp h with hfirst | hrest
      · exact ⟨[], event, by simp, hfirst⟩
      · obtain ⟨past, e, hpre, hfound⟩ := ih hrest
        exact ⟨event :: past, e, List.cons_prefix_cons.mpr ⟨rfl, hpre⟩, hfound⟩

/-- **When the end is final.**  Once a listener has found the end it is at the end for good, and
finds nothing else, if and only if no chunks are queued by hand for it while its queue is not
closed, whatever else is done to it and to the stream. -/
theorem Reachable.final_iff (hb : Reachable C b) (hfinished : .finished ∈ b.finds id event)
    (future : List Event) :
    (Throughout (Broadcast.step C) (b.step C event) future (Over id) ↔
        Never (Broadcast.step C) (b.step C event) future (Refills id)) ∧
      (Never (Broadcast.step C) (b.step C event) future (Refills id) →
        ∀ outcome ∈ found C id (b.step C event) future, outcome = .finished) := by
  obtain ⟨l, a, rfl, hl, hfound⟩ := exists_of_mem_finds hfinished
  have hreachable : Reachable C (b.step C (.operate (.serve id a))) := .step _ hb
  have hl' : (b.step C (.operate (.serve id a))).stream.listener? id =
      some (a.apply b.stream l) := by
    rw [Broadcast.step, Stream.Operation.apply, Stream.listener?_act, if_pos rfl, hl,
      Option.map_some]
  have hended := Stream.ListenerAction.isOver_of_finds hfound
  have hover : (b.step C (.operate (.serve id a))).Over id := over_iff.mpr fun x hx => by
    cases hl'.symm.trans hx
    exact hended
  have hbarred := isBarred_of_phase hreachable.regular.numbered hl' (by
    rcases hended with hphase | ⟨hphase, -⟩ <;> simp [hphase])
  have hfinal : Throughout (Broadcast.step C) (b.step C (.operate (.serve id a))) future (Over id) ↔
      Never (Broadcast.step C) (b.step C (.operate (.serve id a))) future (Refills id) :=
    throughout_iff_never (fun b => Reachable C b ∧ b.IsBarred id) ⟨hreachable, hbarred⟩
      (fun s e hs => ⟨.step e hs.1, hs.2.step hs.1.regular C e⟩) hover
      (fun s e hs h => over_step_iff hs.1.regular hs.2 h C e)
  refine ⟨hfinal, fun hnever outcome houtcome => ?_⟩
  obtain ⟨past, e, hpre, hlater⟩ := exists_of_mem_found houtcome
  exact hfinal.mpr hnever past ((List.prefix_append past [e]).trans hpre) e outcome hlater

/-- A listener that has read all it asked for. -/
def readUp : Broadcast :=
  (new "main" 3 65536).run .json
    (leaflet ++ [.operate (.serve 0 .pump), .operate (.serve 0 (.read 9))])

lemma reachable_readUp : Reachable .json readUp := reachable_run .json (.new "main" 3 65536) _

/-- It reads once more. -/
def oneMore : Event := .operate (.serve 0 (.read 9))

lemma finished_readUp : .finished ∈ readUp.finds 0 oneMore := by
  obtain ⟨outcome, hfound, rfl⟩ : ∃ outcome ∈ readUp.finds 0 oneMore, outcome = .finished := by
    decide +kernel
  exact hfound

/-- The stream goes on and is destroyed, and after the listener has left a chunk is queued for
it. -/
def aftermath : List Event :=
  [.operate (.push ⟨2000, 1000, [2], none⟩), .operate (.serve 0 (.enqueue [])),
    .operate (.serve 0 (.poll 7)), .operate .destroy, oneMore, .operate (.serve 0 .leave),
    .operate (.serve 0 (.enqueue [⟨9000, 1000, [9], none⟩])), oneMore]

/-- It finds the end every time. -/
theorem final_readUp :
    Reachable .json readUp ∧ .finished ∈ readUp.finds 0 oneMore ∧
      (Throughout (Broadcast.step .json) (readUp.step .json oneMore) aftermath (Over 0) ↔
        Never (Broadcast.step .json) (readUp.step .json oneMore) aftermath (Refills 0)) ∧
      ∀ outcome ∈ found .json 0 (readUp.step .json oneMore) aftermath, outcome = .finished := by
  obtain ⟨hiff, hfinal⟩ := reachable_readUp.final_iff finished_readUp aftermath
  exact ⟨reachable_readUp, finished_readUp, hiff, hfinal (by decide +kernel)⟩

/-- The end is not final whatever is done: a chunk that is queued by hand before the listener leaves
is read after the end. -/
theorem not_forall_final :
    ¬ ∀ b, Reachable .json b → ∀ id event, .finished ∈ b.finds id event → ∀ future,
      ∀ outcome ∈ found .json id (b.step .json event) future, outcome = .finished := by
  intro hall
  have hfinal := hall readUp reachable_readUp 0 oneMore finished_readUp
    [.operate (.serve 0 (.enqueue [⟨9000, 1000, [9], none⟩])), oneMore]
  exact absurd hfinal (by decide +kernel)

end Broadcast

end RewindRelay
