import Mathlib.Data.Set.Card
import RewindRelay.Proofs.Broadcast.Passage
/-!
# Who is listening

A listener that was let in to stay listens until it is ended: it leaves or goes out of use, it is
too slow, or the stream is destroyed.  Three parties can end it, each in its own way, and what a
listener finds when it reads is decided by its own phase and its queue, while who is listening is
read off the table of the stream.  The two never disagree.

* `Broadcast.Joined`, `Broadcast.Ended` — what has happened to a listener in a run.
* `Broadcast.IsPresent`, `Broadcast.IsPast` — who listens, and who has stopped for good.
* `Broadcast.IsPresent.step`, `Broadcast.IsPast.step` — **what an event makes of them.**
* `Broadcast.Attendance` — what a listener finds, and what it is given, before and after its end.
* `Broadcast.attendance_run` — **a listener finds the end exactly when it has been ended**, and the
  listeners that are counted are those that have joined and have not been ended.
-/

namespace RewindRelay

/-! ## What a listener finds -/

namespace Queue

/-- A queue that is open for good never reads as finished. -/
lemma read_of_open {q : Queue} (hopen : q.closed = false) (hlast : q.lastCall = false) (size : ℕ)
    (waker : Option Waker) :
    (q.read size waker).1 ≠ .finished ∧ (q.chunks = [] → (q.read size waker).1 = .idle) := by
  cases hchunks : q.chunks with
  | nil => simp [read, hopen, hlast, hchunks]
  | cons first rest => simp [read, hopen, hchunks]

lemma read_of_closed {q : Queue} (hclosed : q.closed = true) (size : ℕ) (waker : Option Waker) :
    (q.read size waker).1 = .finished := by
  simp [read, hclosed]

end Queue

lemma Listener.phase_close (l : Listener) : l.close.phase = .closed := by
  unfold Listener.close
  split
  · next h => exact h
  · rfl

namespace Stream

variable {s : Stream} {l : Listener}

lemma read_of_streaming (hphase : l.phase = .streaming) (size : ℕ) (waker : Waker) :
    (l.read size).1 = (l.queue.read size none).1 ∧
      (s.pollListener waker l).1 = .ofRead (l.queue.read l.readSize (some waker)).1 := by
  simp only [Listener.read, pollListener, readFor, hphase, and_self]

/-- What a listener finds that has a seat. -/
lemma finds_of_seated (h : l.Regular) (hseated : l.isSeated = true) (size : ℕ) (waker : Waker) :
    ((l.read size).1 ≠ .finished ∧ (s.pollListener waker l).1 ≠ .finished) ∧
      (l.queue.chunks = [] →
        (l.read size).1 = .idle ∧ (s.pollListener waker l).1 = .pending) := by
  obtain ⟨hphase, hopen, hlast⟩ := h.seated hseated
  obtain ⟨hread, hpoll⟩ := read_of_streaming (s := s) hphase size waker
  obtain ⟨hnot, hidle⟩ := Queue.read_of_open hopen hlast size none
  obtain ⟨hnot', hidle'⟩ := Queue.read_of_open hopen hlast l.readSize (some waker)
  rw [hread, hpoll]
  refine ⟨⟨hnot, fun h => ?_⟩, fun hnil => ⟨hidle hnil, ?_⟩⟩
  · generalize (l.queue.read l.readSize (some waker)).1 = outcome at h hnot'
    cases outcome with
    | finished => exact hnot' rfl
    | data bytes => cases h
    | idle => cases h
  · rw [hidle' hnil]
    rfl

/-- What a listener finds that is over. -/
lemma finds_of_closed (hphase : l.phase ≠ .seeding) (hclosed : l.queue.closed = true) (size : ℕ)
    (waker : Waker) :
    (l.read size).1 = .finished ∧ (s.pollListener waker l).1 = .finished := by
  cases hl : l.phase with
  | seeding => exact absurd hl hphase
  | closed => simp only [Listener.read, pollListener, hl, and_self]
  | streaming =>
      obtain ⟨hread, hpoll⟩ := read_of_streaming (s := s) hl size waker
      rw [hread, hpoll, Queue.read_of_closed hclosed, Queue.read_of_closed hclosed]
      exact ⟨rfl, rfl⟩

end Stream

namespace Broadcast

/-! ## Who listens -/

/-- The listener is in the table of the stream. -/
def IsPresent (b : Broadcast) (id : ListenerId) : Prop :=
  ∃ l, b.stream.listener? id = some l ∧ l.isSeated = true

/-- The listener has been there, and cannot be let in any more. -/
structure IsBarred (b : Broadcast) (id : ListenerId) : Prop where
  known : id < b.stream.nextListener
  seeded : ∀ l, b.stream.listener? id = some l → l.phase ≠ .seeding

/-- The listener is over: it has no seat, and its queue is closed. -/
structure IsPast (b : Broadcast) (id : ListenerId) : Prop extends b.IsBarred id where
  unseated : ∀ l, b.stream.listener? id = some l → l.seat = none
  closed : ∀ l, b.stream.listener? id = some l → l.queue.closed = true

variable {C : Codec} {b : Broadcast} {id : ListenerId} {event : Event}

lemma isPresent_iff (h : b.stream.Numbered) :
    b.IsPresent id ↔ id ∈ b.stream.seated.map Listener.id := by
  constructor
  · rintro ⟨l, hl, hseated⟩
    exact List.mem_map.mpr
      ⟨l, List.mem_filter.mpr ⟨List.mem_of_find?_eq_some hl, hseated⟩, Stream.listener?_id hl⟩
  · intro hid
    obtain ⟨l, hmem, rfl⟩ := List.mem_map.mp hid
    obtain ⟨hl, hseated⟩ := List.mem_filter.mp hmem
    exact ⟨l, (Stream.listener?_eq_some_iff h).mpr ⟨hl, rfl⟩, hseated⟩

/-- A listener that is let in is there, and the event that lets it in does not end it. -/
lemma Seats.step (h : b.Seats id event) :
    (b.step C event).IsPresent id ∧ ¬ b.Ends id event := by
  cases event with
  | start => cases h
  | preload k a => cases h
  | operate op =>
      cases op with
      | serve k a =>
          obtain ⟨rfl, hasks, l, hl, hnew, hpump, hstay⟩ := h
          obtain ⟨seeded, l', hattach⟩ := Stream.exists_attach_of_pump hnew hpump
          have hl' : (b.step C (.operate (.serve k a))).stream.listener? k =
              some (a.apply b.stream l) := by
            simp only [Broadcast.step, Stream.Operation.apply, Stream.listener?_act, if_true,
              Option.mem_def.mp hl, Option.map_some]
          refine ⟨⟨_, hl', ?_⟩, ?_⟩
          · have hacts := Stream.acts_apply b.stream l a
            generalize a.apply b.stream l = l'' at hacts
            cases hacts with
            | joins asks new joined =>
                rw [Listener.isSeated, joined.seat, hstay]
                rfl
            | plays same stays shut =>
                obtain ⟨e, he⟩ := shut hasks hnew
                rw [hattach] at he
                cases he
            | refused new shut =>
                obtain ⟨e, he⟩ := shut
                rw [hattach] at he
                cases he
            | leaves stayed => cases hasks
          · cases a with
            | leave => cases hasks
            | _ => exact not_false
      | _ => cases h

/-- **Whoever is there stays, unless the event ends it; and then it is over.** -/
lemma IsPresent.step (h : b.IsPresent id) (hregular : b.stream.Regular) (C : Codec)
    (event : Event) :
    ¬ b.Ends id event ∧ (b.step C event).IsPresent id ∨
      b.Ends id event ∧ (b.step C event).IsPast id := by
  obtain ⟨l, hl, hseated⟩ := h
  have hstreams := ((hregular.listener id l hl).seated hseated).1
  have hknown : id < (b.step C event).stream.nextListener :=
    Nat.lt_of_lt_of_le (hregular.numbered.lt_of_listener? hl) (nextListener_le_step C b event)
  have hpassage := passage_step (C := C) hregular id event
  rw [hl] at hpassage
  generalize hl' : (b.step C event).stream.listener? id = l?' at hpassage
  generalize b.given C id event = given at hpassage
  cases hpassage with
  | @passes _ l' same stays =>
      exact Or.inl ⟨stays hseated, l', hl', same.isSeated.trans hseated⟩
  | joins new joined seats => rw [new] at hstreams; cases hstreams
  | refused new => rw [new] at hstreams; cases hstreams
  | @served _ l' seat c pushed alive place seated phase closed lastCall moved =>
      refine Or.inl ⟨by rw [pushed]; exact not_false, l', hl', ?_⟩
      rw [Listener.isSeated, moved]
      rfl
  | forgets renewed =>
      refine Or.inl ⟨renewed.not_ends, _, hl', ?_⟩
      rwa [Listener.isSeated, Listener.forgetCursor, Option.isSome_map]
  | @leaves _ l' phase seat closed spent ends =>
      refine Or.inr ⟨ends, ⟨hknown, fun x hx => ?_⟩, fun x hx => ?_, fun x hx => ?_⟩ <;>
        cases hl'.symm.trans hx
      · exact phase
      · exact seat
      · exact closed
  | departs ends =>
      refine Or.inr ⟨ends, ⟨hknown, fun x hx => ?_⟩, fun x hx => ?_, fun x hx => ?_⟩ <;>
        cases hl'.symm.trans hx

/-- Whoever cannot be let in stays so. -/
lemma IsBarred.step (h : b.IsBarred id) (hregular : b.stream.Regular) (C : Codec)
    (event : Event) : (b.step C event).IsBarred id := by
  refine ⟨Nat.lt_of_lt_of_le h.known (nextListener_le_step C b event), fun x hx => ?_⟩
  have hpassage := passage_step (C := C) hregular id event
  rw [hx] at hpassage
  generalize hl : b.stream.listener? id = l? at hpassage
  generalize b.given C id event = given at hpassage
  cases hpassage with
  | arrives number regular new => exact absurd number (Nat.ne_of_lt h.known)
  | passes same stays =>
      rw [same.phase]
      exact h.seeded _ hl
  | joins new joined seats => exact absurd new (h.seeded _ hl)
  | refused new => exact absurd new (h.seeded _ hl)
  | served pushed alive place seated phase closed lastCall moved =>
      rw [phase]
      exact h.seeded _ hl
  | @forgets l renewed => exact h.seeded l hl
  | leaves phase seat closed spent ends => exact phase

/-- **Whoever is over stays so, and is given nothing.** -/
lemma IsPast.step (h : b.IsPast id) (hregular : b.stream.Regular) (C : Codec) (event : Event) :
    (b.step C event).IsPast id ∧ b.given C id event = [] := by
  have hbarred := h.toIsBarred.step hregular C event
  have hpassage := passage_step (C := C) hregular id event
  generalize hl' : (b.step C event).stream.listener? id = l?' at hpassage
  generalize hl : b.stream.listener? id = l? at hpassage
  generalize b.given C id event = given at hpassage ⊢
  have hpast : (∀ l', l?' = some l' → l'.seat = none ∧ l'.queue.closed = true) →
      (b.step C event).IsPast id := fun h' =>
    ⟨hbarred, fun x hx => (h' x (hl'.symm.trans hx)).1, fun x hx => (h' x (hl'.symm.trans hx)).2⟩
  cases hpassage with
  | absent =>
      refine ⟨hpast fun x hx => ?_, rfl⟩
      cases hx
  | arrives number regular new => exact absurd number (Nat.ne_of_lt h.known)
  | @passes l l' same stays =>
      refine ⟨hpast fun x hx => ?_, rfl⟩
      cases hx
      exact ⟨same.seat.trans (h.unseated l hl), same.closed.trans (h.closed l hl)⟩
  | joins new joined seats => exact absurd new (h.seeded _ hl)
  | refused new => exact absurd new (h.seeded _ hl)
  | served pushed alive place seated phase closed lastCall moved =>
      rw [h.unseated _ hl] at seated
      cases seated
  | @forgets l renewed =>
      refine ⟨hpast fun x hx => ?_, rfl⟩
      cases hx
      refine ⟨?_, h.closed l hl⟩
      rw [Listener.forgetCursor, h.unseated l hl]
      rfl
  | @leaves l l' phase seat closed spent ends =>
      refine ⟨hpast fun x hx => ?_, rfl⟩
      cases hx
      exact ⟨seat, closed⟩
  | departs ends =>
      refine ⟨hpast fun x hx => ?_, rfl⟩
      cases hx

/-- A listener that is ended cannot be let in any more: there is no stream left for it, or it has
left the stream. -/
lemma Ends.step (h : b.Ends id event) (hregular : b.stream.Regular) (C : Codec) :
    (b.step C event).stream.destroyed = true ∨ (b.step C event).IsBarred id := by
  have hnext := nextListener_le_step C b event
  have hknown : id ∈ b.stream.ids → id < (b.step C event).stream.nextListener := fun hid =>
    Nat.lt_of_lt_of_le (hregular.numbered.lt id hid) hnext
  cases event with
  | start => cases h
  | preload k a => cases h
  | operate op =>
      cases op with
      | destroy => exact Or.inl b.stream.destroyed_destroy
      | serve k a =>
          cases a with
          | leave =>
              obtain ⟨rfl, hid⟩ := h
              refine Or.inr ⟨hknown hid, fun x hx => ?_⟩
              simp only [Broadcast.step, Stream.Operation.apply, Stream.listener?_act, if_true,
                Option.map_eq_some_iff] at hx
              obtain ⟨l, -, rfl⟩ := hx
              rw [Stream.ListenerAction.apply, Listener.phase_close]
              intro h
              cases h
          | _ => cases h
      | drop k =>
          obtain ⟨rfl, hid⟩ := h
          refine Or.inr ⟨hknown hid, fun x hx => ?_⟩
          have hnone := Stream.listener?_forget (b.stream.act k .leave) k
          rw [Broadcast.step, Stream.Operation.apply, hnone] at hx
          cases hx
      | disconnectSlow maxBytes =>
          have hpresent : b.IsPresent id := by
            obtain ⟨l, hslow, hid⟩ := List.mem_map.mp h
            obtain ⟨hmem, hslow⟩ := List.mem_filter.mp hslow
            rw [Stream.isSlow, Bool.and_eq_true] at hslow
            exact ⟨l, (Stream.listener?_eq_some_iff hregular.numbered).mpr ⟨hmem, hid⟩, hslow.1⟩
          rcases hpresent.step hregular C (.operate (.disconnectSlow maxBytes)) with
            ⟨hnot, -⟩ | ⟨-, hpast⟩
          · exact absurd h hnot
          · exact Or.inr hpast.toIsBarred
      | _ => cases h

/-- Who is let in is not seeded yet, and the stream is there. -/
lemma Seats.exists_new (h : b.Seats id event) :
    b.stream.destroyed = false ∧ ∃ l, b.stream.listener? id = some l ∧ l.phase = .seeding := by
  cases event with
  | start => cases h
  | preload k a => cases h
  | operate op =>
      cases op with
      | serve k a =>
          obtain ⟨rfl, hasks, l, hl, hnew, hpump, hstay⟩ := h
          obtain ⟨seeded, l', hattach⟩ := Stream.exists_attach_of_pump hnew hpump
          exact ⟨(Stream.attach_eq_ok_iff.mp hattach).1, l, hl, hnew⟩
      | _ => cases h

/-! ## What has happened in a run -/

/-- The listener has been let in, to stay. -/
def Joined (C : Codec) (b : Broadcast) (id : ListenerId) (events : List Event) : Prop :=
  Once (step C) b events fun b event => b.Seats id event

/-- The listener has been ended: it left or went out of use, it was too slow, or the stream was
destroyed. -/
def Ended (C : Codec) (b : Broadcast) (id : ListenerId) (events : List Event) : Prop :=
  Once (step C) b events fun b event => b.Ends id event

/-- What a run from a new stream has made of a listener. -/
structure Traced (C : Codec) (b : Broadcast) (id : ListenerId) (events : List Event) : Prop where
  present : (b.run C events).IsPresent id ↔ Joined C b id events ∧ ¬ Ended C b id events
  past : Joined C b id events → Ended C b id events → (b.run C events).IsPast id
  /-- Who is ended first cannot join any more. -/
  shut : Ended C b id events →
    (b.run C events).stream.destroyed = true ∨ (b.run C events).IsBarred id

lemma traced_run (C : Codec) (name : String) (windowSeconds : Float) (readSize : ℕ)
    (id : ListenerId) (events : List Event) :
    Traced C (new name windowSeconds readSize) id events := by
  have hstart : Reachable C (new name windowSeconds readSize) := .new name windowSeconds readSize
  generalize hb : new name windowSeconds readSize = b at hstart ⊢
  induction events using List.reverseRecOn with
  | nil =>
      refine ⟨⟨fun h => ?_, fun h => absurd h.1 (not_once_nil _)⟩,
        fun h => absurd h (not_once_nil _), fun h => absurd h (not_once_nil _)⟩
      obtain ⟨l, hl, -⟩ := h
      rw [← hb] at hl
      exact absurd (List.mem_of_find?_eq_some hl) List.not_mem_nil
  | append_singleton events event ih =>
      have hregular := (reachable_run C hstart events).regular
      set now := b.run C events with hnow
      have hjoined : Joined C b id (events ++ [event]) ↔
          Joined C b id events ∨ now.Seats id event := once_concat
      have hended : Ended C b id (events ++ [event]) ↔
          Ended C b id events ∨ now.Ends id event := once_concat
      have hshut : Ended C b id events → ¬ now.Seats id event := by
        intro h hseats
        obtain ⟨halive, l, hl, hnew⟩ := hseats.exists_new
        rcases ih.shut h with hd | hbarred
        · rw [halive] at hd
          cases hd
        · exact hbarred.seeded l hl hnew
      have hrun : b.run C (events ++ [event]) = now.step C event := run_append C b events [event]
      refine ⟨?_, ?_, ?_⟩
      · rw [hrun, hjoined, hended]
        constructor
        · rintro ⟨l', hl', hseated⟩
          have hpassage := passage_step (C := C) hregular id event
          rw [hl'] at hpassage
          rcases hpassage.seated (hregular.listener id) hseated with
            ⟨l, hl, hold, hends⟩ | ⟨-, hseats⟩
          · obtain ⟨hj, he⟩ := ih.present.mp ⟨l, hl, hold⟩
            exact ⟨Or.inl hj, not_or.mpr ⟨he, hends⟩⟩
          · exact ⟨Or.inr hseats,
              not_or.mpr ⟨fun he => hshut he hseats, (hseats.step (C := C)).2⟩⟩
        · rintro ⟨hj | hseats, hnot⟩
          · obtain ⟨he, hends⟩ := not_or.mp hnot
            rcases (ih.present.mpr ⟨hj, he⟩).step hregular C event with ⟨-, h⟩ | ⟨h, -⟩
            · exact h
            · exact absurd h hends
          · exact hseats.step.1
      · rw [hrun, hjoined, hended]
        rintro (hj | hseats) he
        · by_cases hold : Ended C b id events
          · exact ((ih.past hj hold).step hregular C event).1
          · have hends := he.resolve_left hold
            rcases (ih.present.mpr ⟨hj, hold⟩).step hregular C event with ⟨h, -⟩ | ⟨-, h⟩
            · exact absurd hends h
            · exact h
        · rcases he with he | hends
          · exact absurd hseats (hshut he)
          · exact absurd hends (hseats.step (C := C)).2
      · rw [hrun, hended]
        rintro (h | h)
        · refine (ih.shut h).imp (fun hd => ?_) fun hbarred => hbarred.step hregular C event
          exact destroyed_step_of_destroyed hd C event
        · exact h.step hregular C

instance (C : Codec) (b : Broadcast) (id : ListenerId) (events : List Event) :
    Decidable (Joined C b id events) :=
  inferInstanceAs (Decidable (Once ..))

instance (C : Codec) (b : Broadcast) (id : ListenerId) (events : List Event) :
    Decidable (Ended C b id events) :=
  inferInstanceAs (Decidable (Once ..))

/-! ## Attendance -/

/-- What a listener finds that has joined, and what it is given. -/
structure Attendance (C : Codec) (b : Broadcast) (id : ListenerId) (ended : Prop) : Prop where
  read : ∀ l, b.stream.listener? id = some l → ∀ size, (l.read size).1 = .finished ↔ ended
  poll : ∀ l, b.stream.listener? id = some l → ∀ waker,
    (b.stream.pollListener waker l).1 = .finished ↔ ended
  /-- Until it is ended it is in the table, and finds that there may be more. -/
  before : ¬ ended → ∃ l ∈ b.stream.seated, b.stream.listener? id = some l ∧
    l.queue.closed = false ∧ (l.queue.chunks = [] →
      (∀ size, (l.read size).1 = .idle) ∧ ∀ waker, (b.stream.pollListener waker l).1 = .pending)
  /-- From then on it is not in the table, has nothing left, and no event gives it anything. -/
  after : ended → (∀ l ∈ b.stream.seated, l.id ≠ id) ∧ b.stream.waiting id = [] ∧
    ∀ event, b.given C id event = []

lemma IsPresent.attendance (h : b.IsPresent id) (hregular : b.stream.Regular) {ended : Prop}
    (hended : ¬ ended) : Attendance C b id ended := by
  obtain ⟨l, hl, hseated⟩ := h
  have hl₀ := hregular.listener id l hl
  have hfinds : ∀ size waker, _ := Stream.finds_of_seated (s := b.stream) hl₀ hseated
  refine ⟨fun x hx size => ?_, fun x hx waker => ?_, fun _ => ?_, fun h => absurd h hended⟩
  · cases hl.symm.trans hx
    exact iff_of_false (hfinds size 0).1.1 hended
  · cases hl.symm.trans hx
    exact iff_of_false (hfinds 0 waker).1.2 hended
  · exact ⟨l, List.mem_filter.mpr ⟨List.mem_of_find?_eq_some hl, hseated⟩, hl,
      (hl₀.seated hseated).2.1, fun hnil =>
        ⟨fun size => ((hfinds size 0).2 hnil).1, fun waker => ((hfinds 0 waker).2 hnil).2⟩⟩

lemma IsPast.attendance (h : b.IsPast id) (hregular : b.stream.Regular) {ended : Prop}
    (hended : ended) : Attendance C b id ended := by
  refine ⟨fun l hl size => ?_, fun l hl waker => ?_, fun h => absurd hended h,
    fun _ => ⟨?_, ?_, ?_⟩⟩
  · exact iff_of_true
      (Stream.finds_of_closed (s := b.stream) (h.seeded l hl) (h.closed l hl) size 0).1 hended
  · exact iff_of_true (Stream.finds_of_closed (h.seeded l hl) (h.closed l hl) 0 waker).2 hended
  · rintro l hl rfl
    obtain ⟨hmem, hseated⟩ := List.mem_filter.mp hl
    have hfound := (Stream.listener?_eq_some_iff hregular.numbered).mpr ⟨hmem, rfl⟩
    rw [Listener.isSeated, h.unseated l hfound] at hseated
    cases hseated
  · unfold Stream.waiting
    split
    · next l hl => exact (hregular.listener id l hl).spent (h.closed l hl)
    · rfl
  · exact fun event => (h.step hregular C event).2

/-- **The end of a stream is the end.**  A listener that has joined finds that it is over exactly
when it has been ended, before that it is in the table and open, and after that it is not there and
is given nothing.  So those who are counted are those who have joined and have not been ended. -/
theorem attendance_run (C : Codec) (name : String) (windowSeconds : Float) (readSize : ℕ)
    (events : List Event) :
    (∀ id, Joined C (new name windowSeconds readSize) id events →
      Attendance C ((new name windowSeconds readSize).run C events) id
        (Ended C (new name windowSeconds readSize) id events)) ∧
    Set.encard {id | Joined C (new name windowSeconds readSize) id events ∧
        ¬ Ended C (new name windowSeconds readSize) id events} =
      ((new name windowSeconds readSize).run C events).stream.listenerCount := by
  have htraced := fun id => traced_run C name windowSeconds readSize id events
  have hregular := (reachable_run C (.new name windowSeconds readSize) events).regular
  generalize new name windowSeconds readSize = b at htraced hregular ⊢
  refine ⟨fun id hjoined => ?_, ?_⟩
  · by_cases hended : Ended C b id events
    · exact ((htraced id).past hjoined hended).attendance hregular hended
    · exact ((htraced id).present.mpr ⟨hjoined, hended⟩).attendance hregular hended
  · have hset : {id | Joined C b id events ∧ ¬ Ended C b id events} =
        ↑((b.run C events).stream.seated.map Listener.id).toFinset := by
      ext id
      show Joined C b id events ∧ ¬ Ended C b id events ↔ _
      rw [← (htraced id).present, isPresent_iff hregular.numbered]
      simp
    have hnodup : ((b.run C events).stream.seated.map Listener.id).Nodup :=
      hregular.numbered.nodup.sublist (List.filter_sublist.map _)
    rw [hset, Set.encard_coe_eq_coe_finsetCard, List.toFinset_card_of_nodup hnodup,
      List.length_map]
    rfl

/-- A listener that joins, reads nothing, and is ended for being slow. -/
def slow : List Event :=
  [.operate (.updateVitals { streamKey := "a", chunkDuration := 1 }),
    .operate (.push ⟨0, 1000, [0], none⟩), .operate (.join .live 65536),
    .operate (.serve 0 .pump), .operate (.disconnectSlow 0)]

theorem attendance_slow :
    Attendance .json ((new "main" 3 65536).run .json slow) 0 True := by
  have hjoined : Joined .json (new "main" 3 65536) 0 slow := by decide +kernel
  have hended : Ended .json (new "main" 3 65536) 0 slow := by decide +kernel
  have hattendance := (attendance_run .json "main" 3 65536 slow).1 0 hjoined
  rwa [eq_true hended] at hattendance

end Broadcast

end RewindRelay
