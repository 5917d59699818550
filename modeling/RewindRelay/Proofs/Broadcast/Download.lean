import RewindRelay.Proofs.Broadcast.Secluded
import RewindRelay.Proofs.Broadcast.Seeding
import RewindRelay.Proofs.Listener.Queue
/-!
# Downloads

A listener that only wants its burst is given it at once and gets no seat.  Whatever goes through
the stream's listeners goes through the seated ones, so from then on nobody but the listener itself
touches its queue.  It finds in it what it was given, piece by piece, and after that the end.

* `Stream.Sweeps`, `Broadcast.listener?_step` — **whoever has no seat is left alone** by all events
  but its own.
* `Broadcast.found` — what a listener finds in a run, one read after the other.
* `Listener.Draining`, `Drained` — audio that is read to its end, and what its reads find.
* `Broadcast.drained_run` — **so it is read in every run.**
* `Broadcast.download_run` — **a download is what it was at the pump**, and comes to an end.
-/

namespace RewindRelay

/-! ## Listeners without a seat -/

namespace Stream

variable {s s' : Stream} {id : ListenerId}

/-- Something is done to all listeners, but nothing to those without a seat. -/
def Sweeps (s s' : Stream) : Prop :=
  ∃ f : Listener → Listener, s'.listeners = s.listeners.map f ∧ (∀ l, (f l).id = l.id) ∧
    ∀ l, l.isSeated = false → f l = l

lemma sweeps_of_listeners (h : s'.listeners = s.listeners) : s.Sweeps s' :=
  ⟨fun l => l, h.trans (List.map_id' _).symm, fun _ => rfl, fun _ _ => rfl⟩

/-- Something is done to some of the seated listeners. -/
lemma sweeps_of_ite {p : Listener → Bool} {f : Listener → Listener} (hf : ∀ l, (f l).id = l.id)
    (hp : ∀ l, p l = true → l.isSeated = true)
    (h : s'.listeners = s.listeners.map fun l => if p l then f l else l) : s.Sweeps s' := by
  refine ⟨_, h, fun l => ?_, fun l hl => if_neg fun hpl => ?_⟩
  · split
    · exact hf l
    · rfl
  · rw [hp l hpl] at hl
    cases hl

lemma sweeps_forgetCursor (h : s'.listeners = s.listeners.map Listener.forgetCursor) :
    s.Sweeps s' := by
  refine ⟨_, h, fun _ => rfl, fun l hl => ?_⟩
  have hseat : l.seat = none := by simpa [Listener.isSeated] using hl
  simp only [Listener.forgetCursor, hseat, Option.map_none]
  cases l
  cases hseat
  rfl

lemma sweeps_push (s : Stream) (c : Chunk) : s.Sweeps (s.push c).2 := by
  rcases push_cases s c with ⟨-, heq⟩ | ⟨-, -, heq⟩ | ⟨-, -, heq⟩ <;> rw [heq]
  · exact sweeps_of_listeners rfl
  · exact ⟨_, rfl, Listener.id_deliverTo _, fun _ => deliverTo_of_unseated _⟩
  · exact sweeps_of_listeners rfl

lemma sweeps_updateVitals (s : Stream) (v : Vitals) : s.Sweeps (s.updateVitals v).2 := by
  rcases updateVitals_cases s v with ⟨-, heq⟩ | ⟨-, -, heq⟩ | ⟨-, -, heq⟩ <;> rw [heq]
  · exact sweeps_of_listeners rfl
  · exact sweeps_of_listeners rfl
  · exact sweeps_forgetCursor rfl

lemma sweeps_destroy (s : Stream) : s.Sweeps s.destroy := by
  unfold Stream.destroy
  split
  · exact sweeps_of_listeners rfl
  · exact sweeps_of_ite (f := Listener.unseat) (fun _ => rfl) (fun _ h => h) rfl

lemma sweeps_reports (s : Stream) : s.Sweeps s.reports.2 :=
  sweeps_of_ite (f := fun l => l.takeInterval.2) (fun _ => rfl) (fun _ h => h) rfl

lemma sweeps_disconnectSlow (s : Stream) (maxBytes : ℕ) :
    s.Sweeps (s.disconnectSlow maxBytes).2 := by
  refine sweeps_of_ite (p := isSlow maxBytes) (f := Listener.unseat) (fun _ => rfl) ?_ rfl
  intro l hslow
  rw [isSlow, Bool.and_eq_true] at hslow
  exact hslow.1

lemma sweeps_stepPreload (C : Codec) (s : Stream) (p : Preload) (a : PreloadAction) :
    s.Sweeps (s.stepPreload C p a).2 := by
  have hspec := stepPreload_spec C s p a
  generalize s.stepPreload C p a = result at hspec ⊢
  cases hspec with
  | header h loader decoded usable => exact s.sweeps_updateVitals h.vitals
  | _ => exact sweeps_of_listeners rfl

lemma Sweeps.listener?_eq (h : s.Sweeps s')
    (hseat : ∀ l, s.listener? id = some l → l.isSeated = false) :
    s'.listener? id = s.listener? id := by
  obtain ⟨f, hlisteners, hid, hf⟩ := h
  have hmap : s'.listener? id = (s.listener? id).map f := by
    rw [← s.listener?_map hid, listener?, hlisteners, listener?]
  rw [hmap]
  cases hl : s.listener? id with
  | none => rfl
  | some l => exact congrArg some (hf l (hseat l hl))

/-- Whoever joins is found, unless the number is taken. -/
lemma listener?_join (s : Stream) (options : ListenOptions) (readSize : ℕ) (id : ListenerId) :
    (s.join options readSize).2.listener? id = (s.listener? id).or
      (if s.nextListener = id
        then some { id := s.nextListener, options, readSize := max readSize 1 } else none) := by
  simp only [join, listener?, List.find?_append, List.find?_singleton, beq_iff_eq]

/-- Is this something that the listener does itself? -/
def Operation.isOwn (id : ListenerId) : Operation → Bool
  | .serve k _ | .drop k => k == id
  | _ => false

/-- Whoever has no seat is left alone by all operations but its own.  Whoever has not joined may
join. -/
lemma listener?_apply {op : Operation} (hop : op.isOwn id = false)
    (hseat : ∀ l, s.listener? id = some l → l.isSeated = false) :
    (op.apply s).listener? id = s.listener? id ∨
      s.listener? id = none ∧ ∃ options readSize,
        (op.apply s).listener? id = some { id, options, readSize } := by
  cases op with
  | push c => exact Or.inl ((s.sweeps_push c).listener?_eq hseat)
  | updateVitals v => exact Or.inl ((s.sweeps_updateVitals v).listener?_eq hseat)
  | setWindow seconds => exact Or.inl rfl
  | adjust => exact Or.inl rfl
  | reset => exact Or.inl ((sweeps_forgetCursor rfl).listener?_eq hseat)
  | destroy => exact Or.inl (s.sweeps_destroy.listener?_eq hseat)
  | join options readSize =>
      simp only [Operation.apply, listener?_join]
      cases s.listener? id with
      | some l => exact Or.inl rfl
      | none =>
          split
          · next hid => exact Or.inr ⟨rfl, options, max readSize 1, by rw [hid]; rfl⟩
          · exact Or.inl rfl
  | serve k a =>
      have hk : id ≠ k := fun heq => by simp [Operation.isOwn, heq] at hop
      exact Or.inl (by rw [Operation.apply, listener?_act, if_neg hk])
  | drop k =>
      have hk : id ≠ k := fun heq => by simp [Operation.isOwn, heq] at hop
      exact Or.inl (by rw [Operation.apply, listener?_forget_of_ne _ hk, listener?_act, if_neg hk])
  | reports => exact Or.inl (s.sweeps_reports.listener?_eq hseat)
  | disconnectSlow maxBytes => exact Or.inl ((s.sweeps_disconnectSlow maxBytes).listener?_eq hseat)

end Stream

namespace Event

/-- Is this something that the listener does itself? -/
def isOwn (id : ListenerId) : Event → Bool
  | .operate op => op.isOwn id
  | _ => false

/-- Is the listener fed by hand? -/
def feeds (id : ListenerId) : Event → Bool
  | .operate (.serve k (.enqueue _)) => k == id
  | _ => false

/-- Does the listener leave? -/
def quits (id : ListenerId) : Event → Bool
  | .operate (.serve k .leave) | .operate (.drop k) => k == id
  | _ => false

end Event

namespace Broadcast

variable {C : Codec} {b : Broadcast} {id : ListenerId} {event : Event}

/-- **Whoever has no seat is left alone** by all events but its own. -/
lemma listener?_step (C : Codec) (hevent : event.isOwn id = false)
    (hseat : ∀ l, b.stream.listener? id = some l → l.isSeated = false) :
    (b.step C event).stream.listener? id = b.stream.listener? id ∨
      b.stream.listener? id = none ∧ ∃ options readSize,
        (b.step C event).stream.listener? id = some { id, options, readSize } := by
  cases event with
  | operate op => exact Stream.listener?_apply hevent hseat
  | start => exact Or.inl rfl
  | preload k a =>
      simp only [step]
      split
      · next p _ => exact Or.inl ((b.stream.sweeps_stepPreload C p a).listener?_eq hseat)
      · exact Or.inl rfl

end Broadcast

/-! ## Reading to the end -/

/-- A listener that has this audio left to read, and is given no more. -/
structure Listener.Draining (l : Listener) (left : List Chunk) : Prop where
  phase : l.phase = .streaming
  seat : l.seat = none
  isOpen : l.queue.closed = false
  lastCall : l.queue.lastCall = true
  chunks : l.queue.chunks = left

/-- What reads find of the audio that a listener has left, and what it has left then. -/
inductive Drained : List Chunk → List Stream.PollOutcome → List Chunk → Prop
  | nil (chunks : List Chunk) : Drained chunks [] chunks
  | data {taken rest left : List Chunk} {found : List Stream.PollOutcome} (some : taken ≠ [])
      (next : Drained rest found left) :
      Drained (taken ++ rest) (.data (taken.flatMap Chunk.data) :: found) left
  | finished {left : List Chunk} {found : List Stream.PollOutcome} (next : Drained [] found left) :
      Drained [] (.finished :: found) left

namespace Drained

variable {chunks left rest : List Chunk} {found found' : List Stream.PollOutcome}

lemma trans (h : Drained chunks found left) (h' : Drained left found' rest) :
    Drained chunks (found ++ found') rest := by
  induction h with
  | nil chunks => exact h'
  | data some next ih => exact .data some (ih h')
  | finished next ih => exact .finished (ih h')

/-- Each piece takes chunks off the front, and the end is found when none is left. -/
lemma exists_pieces (h : Drained chunks found left) :
    ∃ (pieces : List (List Chunk)) (ends : ℕ),
      found = pieces.map (fun cs => .data (cs.flatMap Chunk.data)) ++ .replicate ends .finished ∧
      chunks = pieces.flatten ++ left ∧ (∀ cs ∈ pieces, cs ≠ []) ∧ (ends ≠ 0 → left = []) := by
  induction h with
  | nil chunks => exact ⟨[], 0, rfl, rfl, nofun, fun h => absurd rfl h⟩
  | @data taken rest left found some next ih =>
      obtain ⟨pieces, ends, hfound, hchunks, hsome, hends⟩ := ih
      refine ⟨taken :: pieces, ends, ?_, ?_, List.forall_mem_cons.mpr ⟨some, hsome⟩, hends⟩
      · rw [hfound, List.map_cons, List.cons_append]
      · rw [hchunks, List.flatten_cons, List.append_assoc]
  | @finished left found next ih =>
      obtain ⟨pieces, ends, hfound, hchunks, hsome, hends⟩ := ih
      obtain ⟨hflat, hleft⟩ := List.append_eq_nil_iff.mp hchunks.symm
      -- a piece has a chunk, and there is none
      have hnil : pieces = [] := by
        cases pieces with
        | nil => rfl
        | cons cs rest =>
            rw [List.flatten_cons, List.append_eq_nil_iff] at hflat
            exact absurd hflat.1 (hsome cs List.mem_cons_self)
      subst hnil
      exact ⟨[], ends + 1, by rw [hfound]; rfl, hchunks, nofun, fun _ => hleft⟩

end Drained

namespace Stream

/-- What a listener finds, if this is the answer to a read. -/
def Answer.outcome? : Answer → Option PollOutcome
  | .polled outcome => some outcome
  | .read outcome => some (.ofRead outcome)
  | _ => none

/-- What a listener finds when it does this. -/
def ListenerAction.finds (s : Stream) (l : Listener) (a : ListenerAction) : List PollOutcome :=
  ((a.answer? s l).bind Answer.outcome?).toList

variable {s : Stream} {l : Listener} {left : List Chunk}

lemma draining_readQueue (h : l.Draining left) (size : ℕ) (waker : Option Waker) :
    ∃ left', Listener.Draining { l with queue := (l.queue.read size waker).2 } left' ∧
      Drained left [.ofRead (l.queue.read size waker).1] left' := by
  rcases Queue.read_of_lastCall h.isOpen h.lastCall size waker with
    ⟨hnil, heq⟩ | ⟨taken, hsome, hfront, hfound⟩
  · obtain rfl : left = [] := h.chunks.symm.trans hnil
    rw [heq]
    exact ⟨[], h, .finished (.nil _)⟩
  · refine ⟨(l.queue.read size waker).2.chunks, ?_, ?_⟩
    · exact
        { phase := h.phase
          seat := h.seat
          isOpen := (Queue.closed_read _ _ _).trans h.isOpen
          lastCall := (Queue.lastCall_read _ _ _).trans h.lastCall
          chunks := rfl }
    · rw [← h.chunks, hfound]
      nth_rewrite 1 [hfront]
      exact .data hsome (.nil _)

/-- **A listener reads on**, whatever else it does, unless it leaves or is fed by hand. -/
lemma draining_apply (s : Stream) (h : l.Draining left) {a : ListenerAction}
    (ha : a.isListening = true) :
    ∃ left', (a.apply s l).Draining left' ∧ Drained left (a.finds s l) left' := by
  cases a with
  | pump =>
      have hpump : s.pumpListener l = (.ok 0, l) := if_neg (by rw [h.phase]; nofun)
      refine ⟨left, ?_, .nil _⟩
      rw [ListenerAction.apply, hpump]
      exact h
  | poll waker =>
      have hpoll : s.pollListener waker l = readFor l waker := by
        unfold pollListener
        rw [h.phase]
      simp only [ListenerAction.apply, ListenerAction.finds, ListenerAction.answer?, hpoll]
      exact draining_readQueue h l.readSize (some waker)
  | read size =>
      have hread : l.read size =
          ((l.queue.read size none).1, { l with queue := (l.queue.read size none).2 }) := by
        unfold Listener.read
        split <;> next hphase => first | rfl | (rw [h.phase] at hphase; cases hphase)
      simp only [ListenerAction.apply, ListenerAction.finds, ListenerAction.answer?, hread]
      exact draining_readQueue h size none
  | takeInterval => exact ⟨left, ⟨h.phase, h.seat, h.isOpen, h.lastCall, h.chunks⟩, .nil _⟩
  | enqueue cs => cases ha
  | leave => cases ha

end Stream

namespace Broadcast

/-! ## A run -/

/-- What a listener finds by an event. -/
def finds (b : Broadcast) (id : ListenerId) (event : Event) : List Stream.PollOutcome :=
  ((Event.answer? b id event).bind Stream.Answer.outcome?).toList

/-- What a listener finds in a run, one read after the other. -/
def found (C : Codec) (id : ListenerId) : Broadcast → List Event → List Stream.PollOutcome
  | _, [] => []
  | b, event :: rest => b.finds id event ++ found C id (b.step C event) rest

/-- The listener with this number has this audio left to read. -/
def Drains (b : Broadcast) (id : ListenerId) (left : List Chunk) : Prop :=
  ∃ l, b.stream.listener? id = some l ∧ l.Draining left

variable {C : Codec} {b : Broadcast} {id : ListenerId} {event : Event} {left : List Chunk}

lemma finds_of_not_own (h : event.isOwn id = false) : b.finds id event = [] := by
  cases event with
  | start => rfl
  | preload k a => rfl
  | operate op =>
      cases op with
      | serve k a =>
          have hk : k ≠ id := by simpa [Event.isOwn, Stream.Operation.isOwn] using h
          simp only [finds, Event.answer?, Stream.Operation.answer?, if_neg hk, Option.bind_none,
            Option.toList_none]
      | _ => rfl

/-- **Reading to the end**, whatever happens on the stream. -/
lemma Drains.step (h : b.Drains id left) (C : Codec) (hfeeds : event.feeds id = false)
    (hquits : event.quits id = false) :
    ∃ left', (b.step C event).Drains id left' ∧ Drained left (b.finds id event) left' := by
  obtain ⟨l, hl, hdraining⟩ := h
  cases hown : event.isOwn id with
  | false =>
      have hseat : ∀ x, b.stream.listener? id = some x → x.isSeated = false := fun x hx => by
        cases hl.symm.trans hx
        rw [Listener.isSeated, hdraining.seat]
        rfl
      rw [finds_of_not_own hown]
      rcases listener?_step C hown hseat with hsame | ⟨hnone, -⟩
      · exact ⟨left, ⟨l, hsame.trans hl, hdraining⟩, .nil _⟩
      · rw [hl] at hnone
        cases hnone
  | true =>
      cases event with
      | start => cases hown
      | preload k a => cases hown
      | operate op =>
          cases op with
          | serve k a =>
              obtain rfl : k = id := by simpa [Event.isOwn, Stream.Operation.isOwn] using hown
              have hlistening : a.isListening = true := by
                cases a with
                | enqueue cs => simp [Event.feeds] at hfeeds
                | leave => simp [Event.quits] at hquits
                | _ => rfl
              obtain ⟨left', hdraining', hdrained⟩ :=
                Stream.draining_apply b.stream hdraining hlistening
              refine ⟨left', ⟨_, ?_, hdraining'⟩, ?_⟩
              · rw [Broadcast.step, Stream.Operation.apply, Stream.listener?_act, if_pos rfl, hl,
                  Option.map_some]
              · simpa only [finds, Event.answer?, Stream.Operation.answer?, if_true, hl,
                  Option.bind_some, Stream.ListenerAction.finds] using hdrained
          | drop k =>
              obtain rfl : k = id := by simpa [Event.isOwn, Stream.Operation.isOwn] using hown
              simp [Event.quits] at hquits
          | _ => cases hown

/-- **So it is read in every run.** -/
lemma drained_run (C : Codec) (h : b.Drains id left) (events : List Event)
    (hevents : ∀ event ∈ events, event.feeds id = false ∧ event.quits id = false) :
    ∃ left', (b.run C events).Drains id left' ∧ Drained left (found C id b events) left' := by
  induction events generalizing b left with
  | nil => exact ⟨left, h, .nil _⟩
  | cons event rest ih =>
      obtain ⟨⟨hfeeds, hquits⟩, hrest⟩ := List.forall_mem_cons.mp hevents
      obtain ⟨mid, hmid, hfirst⟩ := h.step C hfeeds hquits
      obtain ⟨left', hleft', hdrained⟩ := ih hmid hrest
      exact ⟨left', hleft', hfirst.trans hdrained⟩

/-! ## Before the pump -/

/-- A listener that is not seeded yet has its queue from before, unless it is fed by hand. -/
lemma chunks_apply_of_seeding {s : Stream} {l : Listener} {a : Stream.ListenerAction}
    (ha : ∀ cs, a ≠ .enqueue cs) (h : (a.apply s l).phase = .seeding) :
    l.phase = .seeding ∧ (a.apply s l).queue.chunks = l.queue.chunks := by
  have hacts := Stream.acts_apply s l a
  generalize hl' : a.apply s l = l' at hacts h
  cases hacts with
  | plays same stays shut =>
      have hnew : l.phase = .seeding := same.phase.symm.trans h
      refine ⟨hnew, ?_⟩
      subst hl'
      cases a with
      | pump =>
          obtain ⟨e, he⟩ := shut rfl hnew
          simp only [Stream.ListenerAction.apply, Stream.pumpListener, hnew, if_true, he]
      | poll waker =>
          obtain ⟨e, he⟩ := shut rfl hnew
          obtain ⟨l', hpoll, hqueue⟩ := Stream.exists_pollListener_of_error hnew he waker
          rw [Stream.ListenerAction.apply, hpoll, hqueue]
      | read size => simp only [Stream.ListenerAction.apply, Listener.read, hnew]
      | enqueue cs => exact absurd rfl (ha cs)
      | takeInterval => rfl
      | leave =>
          rw [stays rfl] at hnew
          cases hnew
  | joins asks new joined => rw [joined.phase] at h; cases h
  | refused new shut => cases h
  | leaves stayed => cases h

/-- What is not seeded yet has nothing queued. -/
def Unfed (b : Broadcast) (id : ListenerId) : Prop :=
  ∀ l, b.stream.listener? id = some l → l.phase = .seeding → l.queue.chunks = []

lemma Unfed.step (h : b.Unfed id) (hregular : b.stream.Regular) (C : Codec)
    (hfeeds : event.feeds id = false) : (b.step C event).Unfed id := by
  intro l' hl' hnew'
  -- whoever was seeded before is so still
  have hnew : ∀ l, b.stream.listener? id = some l → l.phase = .seeding := fun l hl => by
    by_contra hold
    exact ((isBarred_of_phase hregular.numbered hl hold).step hregular C event).seeded l' hl' hnew'
  cases hown : event.isOwn id with
  | false =>
      have hseat : ∀ l, b.stream.listener? id = some l → l.isSeated = false := fun l hl => by
        rw [Listener.isSeated, ((hregular.listener id l hl).new (hnew l hl)).1]
        rfl
      rcases listener?_step C hown hseat with hsame | ⟨-, options, readSize, hjoined⟩
      · exact h l' (hsame.symm.trans hl') hnew'
      · cases hjoined.symm.trans hl'
        rfl
  | true =>
      cases event with
      | start => cases hown
      | preload k a => cases hown
      | operate op =>
          cases op with
          | serve k a =>
              obtain rfl : k = id := by simpa [Event.isOwn, Stream.Operation.isOwn] using hown
              rw [Broadcast.step, Stream.Operation.apply, Stream.listener?_act, if_pos rfl,
                Option.map_eq_some_iff] at hl'
              obtain ⟨l, hl, rfl⟩ := hl'
              have hhand : ∀ cs, a ≠ .enqueue cs := by
                rintro cs rfl
                simp [Event.feeds] at hfeeds
              obtain ⟨hphase, hchunks⟩ := chunks_apply_of_seeding hhand hnew'
              exact hchunks.trans (h l hl hphase)
          | drop k =>
              obtain rfl : k = id := by simpa [Event.isOwn, Stream.Operation.isOwn] using hown
              rw [Broadcast.step, Stream.Operation.apply, Stream.listener?_forget] at hl'
              cases hl'
          | _ => cases hown

lemma unfed_run (C : Codec) (name : String) (windowSeconds : Float) (readSize : ℕ)
    {events : List Event} (h : ∀ event ∈ events, event.feeds id = false) :
    ((new name windowSeconds readSize).run C events).Unfed id := by
  have hstart : Reachable C (new name windowSeconds readSize) := .new name windowSeconds readSize
  induction events using List.reverseRecOn with
  | nil =>
      intro l hl
      exact absurd (List.mem_of_find?_eq_some hl) List.not_mem_nil
  | append_singleton events event ih =>
      obtain ⟨hevents, hevent⟩ := List.forall_mem_append.mp h
      rw [run_append]
      exact (ih hevents).step (reachable_run C hstart events).regular C
        (hevent event List.mem_cons_self)

/-- Whoever is not seeded yet has never had a seat. -/
lemma not_seated_of_seeding (hb : Reachable C b) (events : List Event) {l : Listener}
    (hl : (b.run C events).stream.listener? id = some l) (hnew : l.phase = .seeding) :
    ∀ x ∈ b.stream.seated, x.id ≠ id := by
  rintro x hx rfl
  obtain ⟨hmem, hseated⟩ := List.mem_filter.mp hx
  have hfound := (Stream.listener?_eq_some_iff hb.regular.numbered).mpr ⟨hmem, rfl⟩
  have hphase := ((hb.regular.listener _ x hfound).seated hseated).1
  have hbarred := isBarred_of_phase hb.regular.numbered hfound (by rw [hphase]; nofun)
  exact (hbarred.run hb events).seeded l hl hnew

/-! ## Downloads -/

/-- A pump that is not refused leaves a listener that only wants its burst with this to read. -/
lemma drains_pump (hb : Reachable C b) (hunfed : b.Unfed id) {l : Listener}
    (hl : b.stream.listener? id = some l) (hnew : l.phase = .seeding)
    (honce : l.options.pumpAndFinish = true) (hpump : (b.stream.pumpListener l).1.isOk = true) :
    ∃ given, b.stream.asked l.options = .ok given ∧
      (b.step C (.operate (.serve id .pump))).Drains id given := by
  obtain ⟨seeded, l', hattach⟩ := Stream.exists_attach_of_pump hnew hpump
  obtain ⟨offset, hjoins⟩ := Stream.exists_joins hattach
  obtain ⟨hseat, hopen, -⟩ := (hb.regular.listener id l hl).new hnew
  obtain ⟨pumped, hseeding⟩ :=
    Stream.exists_seeding hb.regular hl hnew hjoins.alive hjoins.idle hjoins.asked
  have happly : Stream.ListenerAction.pump.apply b.stream l = l' := by
    simp only [Stream.ListenerAction.apply, Stream.pumpListener, hnew, if_true, hattach]
  obtain rfl : l' = pumped := by
    have hfound := hseeding.found
    rw [Stream.listener?_act, if_pos rfl, hl, Option.map_some, happly] at hfound
    exact Option.some.inj hfound
  exact ⟨_, hjoins.asked, l', hseeding.found,
    { phase := hseeding.phase
      seat := by rw [hjoins.seat, if_pos honce, hseat]
      isOpen := hjoins.closed.trans hopen
      lastCall := by rw [hjoins.lastCall, honce, Bool.or_true]
      chunks := by rw [hseeding.queue, hunfed l hl hnew, List.nil_append] }⟩

/-- A first poll that is not refused finds what a poll finds after a pump. -/
lemma poll_of_pump {l : Listener} (hl : b.stream.listener? id = some l) (hnew : l.phase = .seeding)
    (hpump : (b.stream.pumpListener l).1.isOk = true) (waker : Waker) :
    b.step C (.operate (.serve id (.poll waker))) =
        (b.step C (.operate (.serve id .pump))).step C (.operate (.serve id (.poll waker))) ∧
      b.finds id (.operate (.serve id (.poll waker))) =
        (b.step C (.operate (.serve id .pump))).finds id (.operate (.serve id (.poll waker))) := by
  obtain ⟨seeded, l', hattach⟩ := Stream.exists_attach_of_pump hnew hpump
  have hpumped : b.stream.pumpListener l = (.ok seeded, l') := by
    simp only [Stream.pumpListener, hnew, if_true, hattach]
  have hl' : (b.stream.act id .pump).listener? id = some l' := by
    rw [Stream.listener?_act, if_pos rfl, hl, Option.map_some, Stream.ListenerAction.apply, hpumped]
  refine ⟨?_, ?_⟩
  · simp only [Broadcast.step, Stream.Operation.apply,
      Stream.act_poll_of_attach hl hnew hattach waker]
  · have hpoll : b.stream.pollListener waker l =
        (b.stream.act id .pump).pollListener waker l' := by
      simp only [Stream.pollListener, hnew, hpumped, Stream.phase_attach hattach]
    simp only [finds, Event.answer?, Stream.Operation.answer?, if_true, hl, Option.bind_some,
      Stream.ListenerAction.answer?, hpoll, Broadcast.step, Stream.Operation.apply, hl']

/-- What has become of audio that was given once: reads have taken these pieces of it, it has this
left, and its end was found so many times. -/
structure Download (given : List Chunk) (found : List Stream.PollOutcome)
    (pieces : List (List Chunk)) (left : List Chunk) (ends : ℕ) : Prop where
  /-- No read finds that there may be more. -/
  found : found = pieces.map (fun cs => .data (cs.flatMap Chunk.data)) ++ .replicate ends .finished
  whole : given = pieces.flatten ++ left
  few : pieces.length ≤ given.length
  spent : ends ≠ 0 → left = []

lemma Drains.waiting (h : b.Drains id left) : b.stream.waiting id = left := by
  obtain ⟨l, hl, hdraining⟩ := h
  rw [Stream.waiting, hl]
  exact hdraining.chunks

lemma Drains.not_seated (h : b.Drains id left) (hb : Reachable C b) :
    ∀ x ∈ b.stream.seated, x.id ≠ id := by
  rintro x hx rfl
  obtain ⟨l, hl, hdraining⟩ := h
  obtain ⟨hmem, hseated⟩ := List.mem_filter.mp hx
  cases hl.symm.trans ((Stream.listener?_eq_some_iff hb.regular.numbered).mpr ⟨hmem, rfl⟩)
  rw [Listener.isSeated, hdraining.seat] at hseated
  cases hseated

lemma exists_download {chunks : List Chunk} {found : List Stream.PollOutcome}
    (h : Drained chunks found left) : ∃ pieces ends, Download chunks found pieces left ends := by
  obtain ⟨pieces, ends, hfound, hchunks, hsome, hends⟩ := h.exists_pieces
  refine ⟨pieces, ends, hfound, hchunks, ?_, hends⟩
  have hpositive : ∀ n ∈ pieces.map List.length, 1 ≤ n :=
    List.forall_mem_map.mpr fun cs hcs => List.length_pos_iff.mpr (hsome cs hcs)
  have hlength : pieces.length ≤ pieces.flatten.length := by
    simpa only [List.length_map, List.length_flatten] using
      List.length_le_sum_of_one_le _ hpositive
  rw [hchunks, List.length_append]
  omega

/-- **A download is what it was at the pump**, and comes to an end.  A listener that only wants its
burst and is not fed by hand finds the audio that it was given, in order, in no more pieces than
there are chunks, and then nothing but the end, whatever happens to the stream; and it is never in
the table of the stream.  A first poll is a pump, and then a poll. -/
theorem download_run (C : Codec) (name : String) (windowSeconds : Float) (readSize : ℕ)
    (past future : List Event) (hb : (new name windowSeconds readSize).run C past = b)
    {l : Listener} (hl : b.stream.listener? id = some l) (hnew : l.phase = .seeding)
    (honce : l.options.pumpAndFinish = true) (hpump : (b.stream.pumpListener l).1.isOk = true)
    (hpast : ∀ event ∈ past, event.feeds id = false)
    (hfuture : ∀ event ∈ future, event.feeds id = false ∧ event.quits id = false) :
    ∃ pumped, pumped = b.step C (.operate (.serve id .pump)) ∧
      (∃ given pieces left ends, b.stream.asked l.options = .ok given ∧
        Download given (found C id pumped future) pieces left ends ∧
          (pumped.run C future).stream.waiting id = left) ∧
      (∀ waker,
        b.step C (.operate (.serve id (.poll waker))) =
            pumped.step C (.operate (.serve id (.poll waker))) ∧
          b.finds id (.operate (.serve id (.poll waker))) =
            pumped.finds id (.operate (.serve id (.poll waker)))) ∧
      ∀ part, part <+: past ++ .operate (.serve id .pump) :: future →
        ∀ x ∈ ((new name windowSeconds readSize).run C part).stream.seated, x.id ≠ id := by
  have hstart : Reachable C (new name windowSeconds readSize) := .new name windowSeconds readSize
  have hreach : Reachable C b := hb ▸ reachable_run C hstart past
  have hunfed : b.Unfed id := hb ▸ unfed_run C name windowSeconds readSize hpast
  obtain ⟨given, hasked, hdrains⟩ := drains_pump hreach hunfed hl hnew honce hpump
  refine ⟨_, rfl, ?_, poll_of_pump hl hnew hpump, fun part hpart => ?_⟩
  · obtain ⟨left, hleft, hdrained⟩ := drained_run C hdrains future hfuture
    obtain ⟨pieces, ends, hdownload⟩ := exists_download hdrained
    exact ⟨given, pieces, left, ends, hasked, hdownload, hleft.waiting⟩
  · rcases List.prefix_or_prefix_of_prefix hpart (List.prefix_append past _) with
      ⟨rest, rfl⟩ | ⟨rest, rfl⟩
    · -- up to the pump
      rw [run_append] at hb
      subst hb
      exact not_seated_of_seeding (reachable_run C hstart part) rest hl hnew
    · rw [List.prefix_append_right_inj, List.prefix_cons_iff] at hpart
      rw [run_append, hb]
      rcases hpart with rfl | ⟨future', rfl, hfuture'⟩
      · exact not_seated_of_seeding hreach [] hl hnew
      · obtain ⟨left, hleft, -⟩ := drained_run C hdrains future' fun event hevent =>
          hfuture event (hfuture'.subset hevent)
        have hreach' : Reachable C (b.run C (.operate (.serve id .pump) :: future')) :=
          reachable_run C hreach _
        exact hleft.not_seated hreach'

/-- A listener that wants the last two chunks. -/
def leaflet : List Event :=
  [.operate (.updateVitals { streamKey := "a", chunkDuration := 1 }),
    .operate (.push ⟨0, 1000, [0], none⟩), .operate (.push ⟨1000, 1000, [1], none⟩),
    .operate (.join (.download 2) 65536)]

lemma listener?_leaflet :
    (((new "main" 3 65536).run .json leaflet).stream.listener? 0).isSome = true := by
  decide +kernel

/-- It reads while the stream goes on and is destroyed. -/
def leafletReads : List Event :=
  [.operate (.push ⟨2000, 1000, [2], none⟩), .operate (.serve 0 (.read 1)), .operate .destroy,
    .operate (.serve 0 (.poll 7)), .operate (.serve 0 (.read 1))]

/-- It has them, and no others. -/
theorem download_leaflet :
    ∃ pumped pieces left ends,
      pumped = ((new "main" 3 65536).run .json leaflet).step .json (.operate (.serve 0 .pump)) ∧
      Download [⟨0, 1000, [0], none⟩, ⟨1000, 1000, [1], none⟩]
        (found .json 0 pumped leafletReads) pieces left ends := by
  obtain ⟨pumped, hpumped, ⟨given, pieces, left, ends, hasked, hdownload, -⟩, -⟩ :=
    download_run .json "main" 3 65536 leaflet leafletReads rfl
      (Option.some_get listener?_leaflet).symm (by decide +kernel) (by decide +kernel)
      (by decide +kernel) (by decide +kernel) (by decide +kernel)
  cases hasked
  exact ⟨pumped, pieces, left, ends, hpumped, hdownload⟩

end Broadcast

end RewindRelay
