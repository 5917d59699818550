import RewindRelay.Proofs.Stream.Turn
/-!
# No lost wake-up

A reader that polls and finds nothing registers its waker and sleeps until it is called.  The queue
has room for one waker, and a newer one takes the place of the one before.  Whoever adds chunks,
finishes the queue or closes it calls the waker and takes it away; whoever reads leaves it alone.
So a waker that is still registered is that of a reader who has nothing to come back for.

* `Listener.Call`, `Listener.callAll` — all that is done to a listener, in any order.
* `Listener.registered` — the wakers that are registered, one after the other.
* `Listener.Idle` — a poll would find nothing, on whatever stream.
* `Listener.Attentive` — **a waker is registered only with an idle listener.**
* `Listener.Hears`, `Listener.hears_apply` — **what one call does to the waker.**
* `Listener.told_of_waiting` — what many calls do to it.
* `Listener.prompt` — **no wake-up is lost**, and no waker is called twice.
-/

namespace RewindRelay

/-! ## The waker of a queue -/

namespace Queue

variable (q : Queue) {q' : Queue}

@[simp] lemma waker_wake : q.wake.waker = none := by
  unfold wake
  split
  · rfl
  · assumption

@[simp] lemma woken_wake : q.wake.woken = q.waker.toList ++ q.woken := by
  unfold wake
  split <;> next h => rw [h]; rfl

/-- There is nothing to read, but more may come. -/
structure Idle : Prop where
  isOpen : q.closed = false
  empty : q.chunks = []
  more : q.lastCall = false

/-- The waker stays where it is, if there is one, and nobody is called. -/
structure Rests (q' : Queue) : Prop where
  waker : q'.waker = q.waker
  woken : q'.woken = q.woken

/-- The waker is called, if there is one. -/
structure Rings (q' : Queue) : Prop where
  waker : q'.waker = none
  woken : q'.woken = q.waker.toList ++ q.woken

variable {q}

lemma Rings.rests (h : q.Rings q') (hwaker : q.waker = none) : q.Rests q' :=
  ⟨h.waker.trans hwaker.symm, by rw [h.woken, hwaker]; rfl⟩

lemma Rests.trans {q'' : Queue} (h : q.Rests q') (h' : q'.Rests q'') : q.Rests q'' :=
  ⟨h'.waker.trans h.waker, h'.woken.trans h.woken⟩

lemma rings_finish (q : Queue) : q.Rings q.finish := ⟨waker_wake _, woken_wake _⟩

lemma rings_close (q : Queue) : q.Rings q.close := ⟨waker_wake _, woken_wake _⟩

lemma rings_enqueue (hopen : q.closed = false) (cs : List Chunk) : q.Rings (q.enqueue cs) := by
  simp only [enqueue, hopen, Bool.false_eq_true, if_false]
  exact ⟨waker_wake _, woken_wake _⟩

lemma Idle.read (h : q.Idle) (size : ℕ) (waker : Option Waker) :
    q.read size waker = (.idle, { q with waker := waker.or q.waker }) := by
  simp only [Queue.read, h.isOpen, h.empty, h.more, Bool.false_eq_true, if_false]

/-- A read of a queue that is not idle finds something, if only the end. -/
lemma read_of_not_idle (h : ¬ q.Idle) (size : ℕ) (waker : Option Waker) :
    (q.read size waker).1 ≠ .idle ∧ q.Rests (q.read size waker).2 := by
  unfold Queue.read
  split
  · exact ⟨nofun, rfl, rfl⟩
  · next hopen =>
      split
      · next hnil =>
          split
          · exact ⟨nofun, rfl, rfl⟩
          · next hmore => exact absurd ⟨by simpa using hopen, hnil, by simpa using hmore⟩ h
      · exact ⟨nofun, rfl, rfl⟩

end Queue

namespace Listener

/-! ## Calls -/

/-- What is done to a listener. -/
inductive Call
  /-- By itself or by hand, on a stream in any state. -/
  | act (s : Stream) (a : Stream.ListenerAction)
  | finish
  | close
  /-- It is moved to another place in the table of its stream. -/
  | place (seat : Option Seat)

def Call.apply (l : Listener) : Call → Listener
  | .act s a => a.apply s l
  | .finish => { l with queue := l.queue.finish }
  | .close => { l with queue := l.queue.close }
  | .place seat => { l with seat }

/-- The waker that is registered by a call: that of a poll that finds nothing. -/
def Call.registers? (l : Listener) : Call → Option Waker
  | .act s (.poll waker) =>
    match (s.pollListener waker l).1 with
    | .pending => some waker
    | _ => none
  | _ => none

def callAll (l : Listener) (calls : List Call) : Listener := calls.foldl Call.apply l

/-- The wakers that are registered by calls, one after the other. -/
def registered (l : Listener) : List Call → List Waker
  | [] => []
  | call :: rest => (call.registers? l).toList ++ registered (call.apply l) rest

variable {l l' : Listener}

lemma callAll_append (l : Listener) (past later : List Call) :
    l.callAll (past ++ later) = (l.callAll past).callAll later :=
  List.foldl_append

/-! ## One call -/

/-- The listener follows a stream, and has nothing to read. -/
structure Idle (l : Listener) : Prop where
  phase : l.phase = .streaming
  queue : l.queue.Idle

/-- A poll of an idle listener finds nothing, and registers its waker. -/
lemma Idle.poll (h : l.Idle) (s : Stream) (waker : Waker) :
    s.pollListener waker l =
      (.pending, { l with queue := { l.queue with waker := some waker } }) := by
  obtain ⟨id, options, readSize, phase, queue, seat⟩ := l
  obtain ⟨rfl, hqueue⟩ := h
  simp only [Stream.pollListener, Stream.readFor, hqueue.read, Option.some_or,
    Stream.PollOutcome.ofRead]

/-- **A waker is registered only with an idle listener**: its queue is open, empty, and not on its
last call. -/
def Attentive (l : Listener) : Prop := l.queue.waker ≠ none → l.Idle

/-- What a call does to the waker of a listener, when it registers this one itself or none. -/
inductive Hears (l : Listener) : Option Waker → Listener → Prop
  | registers {waker : Waker} {l' : Listener} (here : l'.queue.waker = some waker)
    (same : l'.queue.woken = l.queue.woken) (idle : l'.Idle) : Hears l (some waker) l'
  | rests {l' : Listener} (same : l.queue.Rests l'.queue) (stays : l.Idle → l'.Idle) :
    Hears l none l'
  | rings {l' : Listener} (told : l.queue.Rings l'.queue) : Hears l none l'

lemma hears_self (l : Listener) : l.Hears none l := .rests ⟨rfl, rfl⟩ fun h => h

namespace Attentive

lemma hears (h : l.Attentive) {waker? : Option Waker} (hhears : l.Hears waker? l') :
    l'.Attentive := by
  intro hwaker
  cases hhears with
  | registers here same idle => exact idle
  | rests same stays => exact stays (h (same.waker ▸ hwaker))
  | rings told => exact absurd told.waker hwaker

/-- Nobody waits for a listener that does not follow its stream, or does not any more. -/
lemma waker_eq_none (h : l.Attentive) (hphase : l.phase ≠ .streaming) : l.queue.waker = none := by
  by_contra hwaker
  exact hphase (h hwaker).phase

end Attentive

/-! ## Enqueuing and reading -/

lemma hears_enqueue (l : Listener) (cs : List Chunk) : l.Hears none (l.enqueue cs) := by
  cases hclosed : l.queue.closed with
  | false => exact .rings (Queue.rings_enqueue hclosed cs)
  | true =>
      have hsame : l.enqueue cs = l := by rw [Listener.enqueue, Queue.enqueue_of_closed hclosed]
      rw [hsame]
      exact hears_self l

/-- A read without a waker calls nobody and changes nothing for whoever waits. -/
lemma hears_read (l : Listener) (size : ℕ) : l.Hears none (l.read size).2 := by
  unfold Listener.read
  split
  · exact hears_self l
  · next hphase =>
      by_cases hidle : l.queue.Idle
      · rw [hidle.read]
        exact .rests ⟨rfl, rfl⟩ fun _ => ⟨hphase, hidle.isOpen, hidle.empty, hidle.more⟩
      · exact .rests (Queue.read_of_not_idle hidle size none).2 fun h => absurd h.queue hidle
  · exact hears_self l

/-! ## Joining and polling -/

/-- A listener is let in while nobody waits for it. -/
lemma rests_attach {s : Stream} {seeded : ℕ} (h : s.attach l = .ok (seeded, l'))
    (hwaker : l.queue.waker = none) : l.queue.Rests l'.queue := by
  obtain ⟨chunks, hqueue⟩ := Stream.queue_attach h
  have hseed : l.queue.Rests (l.queue.enqueue chunks) := by
    cases hclosed : l.queue.closed with
    | false => exact (Queue.rings_enqueue hclosed _).rests hwaker
    | true =>
        rw [Queue.enqueue_of_closed hclosed]
        exact ⟨rfl, rfl⟩
  rcases hqueue with heq | heq <;> rw [heq]
  · exact hseed.trans ((Queue.rings_finish _).rests (hseed.waker.trans hwaker))
  · exact hseed

lemma registers?_poll {s : Stream} {waker : Waker} (h : (s.pollListener waker l).1 ≠ .pending) :
    Call.registers? l (.act s (.poll waker)) = none := by
  rw [Call.registers?]
  cases houtcome : (s.pollListener waker l).1 with
  | pending => exact absurd houtcome h
  | data _ | finished | failed _ => rfl

lemma registers?_of_pending {s : Stream} {waker : Waker}
    (h : (s.pollListener waker l).1 = .pending) :
    Call.registers? l (.act s (.poll waker)) = some waker := by
  simp only [Call.registers?, h]

lemma hears_poll_of_streaming (hphase : l.phase = .streaming) (s : Stream) (waker : Waker) :
    l.Hears (Call.registers? l (.act s (.poll waker))) (s.pollListener waker l).2 := by
  by_cases hidle : l.queue.Idle
  · have hpoll := Idle.poll ⟨hphase, hidle⟩ s waker
    rw [registers?_of_pending (by rw [hpoll]), hpoll]
    exact .registers rfl rfl ⟨hphase, hidle.isOpen, hidle.empty, hidle.more⟩
  · obtain ⟨hfound, hrests⟩ := Queue.read_of_not_idle hidle l.readSize (some waker)
    have hpoll : s.pollListener waker l = Stream.readFor l waker := by
      unfold Stream.pollListener
      rw [hphase]
    have houtcome : (s.pollListener waker l).1 ≠ .pending := by
      rw [hpoll]
      exact fun hpending => hfound (Stream.PollOutcome.ofRead_eq_pending_iff.mp hpending)
    rw [registers?_poll houtcome, hpoll]
    exact .rests hrests fun h => absurd h.queue hidle

/-- What comes before a call while nobody waits makes no difference to it. -/
lemma Hears.of_rests {l₁ : Listener} {waker? : Option Waker} (h : l₁.Hears waker? l')
    (hrests : l.queue.Rests l₁.queue) (hidle : ¬ l.Idle) : l.Hears waker? l' := by
  cases h with
  | registers here same idle => exact .registers here (same.trans hrests.woken) idle
  | rests same stays => exact .rests (hrests.trans same) fun h => absurd h hidle
  | rings told =>
      exact .rings ⟨told.waker, by rw [told.woken, hrests.waker, hrests.woken]⟩

lemma hears_poll (h : l.Attentive) (s : Stream) (waker : Waker) :
    l.Hears (Call.registers? l (.act s (.poll waker))) (s.pollListener waker l).2 := by
  cases hphase : l.phase with
  | streaming => exact hears_poll_of_streaming hphase s waker
  | closed =>
      have hpoll : s.pollListener waker l = (.finished, l) := by
        unfold Stream.pollListener
        rw [hphase]
      rw [registers?_poll (by simp [hpoll]), hpoll]
      exact hears_self l
  | seeding =>
      have hnot : ¬ l.Idle := fun hidle => by
        have hstreaming := hidle.phase
        rw [hphase] at hstreaming
        cases hstreaming
      cases hattach : s.attach l with
      | error e =>
          obtain ⟨l', hpoll, hqueue⟩ := Stream.exists_pollListener_of_error hphase hattach waker
          rw [registers?_poll (by simp [hpoll]), hpoll]
          exact .rests ⟨by rw [hqueue], by rw [hqueue]⟩ fun hidle => absurd hidle hnot
      | ok result =>
          obtain ⟨seeded, joined⟩ := result
          have hstreaming := Stream.phase_attach hattach
          have hrests := rests_attach hattach (h.waker_eq_none (by simp [hphase]))
          -- a first poll is the poll of the listener that has been let in
          have hpoll : s.pollListener waker l = s.pollListener waker joined := by
            simp only [Stream.pollListener, Stream.pumpListener, hphase, if_true, hattach,
              hstreaming]
          have hsame : Call.registers? l (.act s (.poll waker)) =
              Call.registers? joined (.act s (.poll waker)) := by
            simp only [Call.registers?, hpoll]
          rw [hsame, hpoll]
          exact (hears_poll_of_streaming hstreaming s waker).of_rests hrests hnot

lemma hears_pump (h : l.Attentive) (s : Stream) : l.Hears none (s.pumpListener l).2 := by
  unfold Stream.pumpListener
  split
  · next hphase =>
      have hnot : l.phase ≠ .streaming := by simp [hphase]
      split
      · next hattach =>
          exact .rests (rests_attach hattach (h.waker_eq_none hnot)) fun hidle =>
            absurd hidle.phase hnot
      · exact hears_self l
  · exact hears_self l

lemma hears_close (l : Listener) : l.Hears none l.close := by
  unfold Listener.close
  split
  · exact hears_self l
  · exact .rings (Queue.rings_close _)

/-- **One call**, whatever it is. -/
theorem hears_apply (h : l.Attentive) (call : Call) :
    l.Hears (call.registers? l) (call.apply l) := by
  cases call with
  | act s a =>
      cases a with
      | pump => exact hears_pump h s
      | poll waker => exact hears_poll h s waker
      | read size => exact hears_read l size
      | enqueue cs => exact hears_enqueue l cs
      | takeInterval =>
          exact .rests ⟨rfl, rfl⟩ fun hidle =>
            ⟨hidle.phase, hidle.queue.isOpen, hidle.queue.empty, hidle.queue.more⟩
      | leave => exact hears_close l
  | finish => exact .rings (Queue.rings_finish _)
  | close => exact .rings (Queue.rings_close _)
  | place seat => exact .rests ⟨rfl, rfl⟩ fun hidle => ⟨hidle.phase, hidle.queue⟩

/-! ## Many calls -/

lemma Attentive.callAll (h : l.Attentive) (calls : List Call) : (l.callAll calls).Attentive := by
  induction calls generalizing l with
  | nil => exact h
  | cons call rest ih => exact ih (h.hears (hears_apply h call))

/-- As long as no newer waker is registered, the one that is there stays until it is called. -/
lemma told_of_waiting (h : l.Attentive) {calls : List Call} (hnewer : l.registered calls = []) :
    l.queue.Rests (l.callAll calls).queue ∨ l.queue.Rings (l.callAll calls).queue := by
  induction calls generalizing l with
  | nil => exact Or.inl ⟨rfl, rfl⟩
  | cons call rest ih =>
      obtain ⟨hnone, hrest⟩ := List.append_eq_nil_iff.mp hnewer
      have hhears := hears_apply h call
      have hnext := ih (h.hears hhears) hrest
      rw [Option.toList_eq_nil_iff.mp hnone] at hhears
      cases hhears with
      | rests same stays =>
          refine hnext.imp same.trans fun hrings => ⟨hrings.waker, ?_⟩
          rw [callAll, List.foldl_cons, ← callAll, hrings.woken, same.waker, same.woken]
      | rings told =>
          -- there is nobody to be called after that
          have hquiet := hnext.elim (fun hrests => hrests) fun hrings => hrings.rests told.waker
          exact Or.inr ⟨hquiet.waker.trans told.waker, hquiet.woken.trans told.woken⟩

/-- Wakers are called in the order in which they were registered, each once at most. -/
lemma woken_sublist (h : l.Attentive) (calls : List Call) :
    ((l.callAll calls).queue.woken.reverse ++ (l.callAll calls).queue.waker.toList).Sublist
      (l.queue.woken.reverse ++ l.queue.waker.toList ++ l.registered calls) := by
  induction calls generalizing l with
  | nil => rw [registered, List.append_nil]; exact List.Sublist.refl _
  | cons call rest ih =>
      have hhears := hears_apply h call
      have hnext := ih (h.hears hhears)
      have hfirst : ((call.apply l).queue.woken.reverse ++
          (call.apply l).queue.waker.toList).Sublist
            (l.queue.woken.reverse ++ l.queue.waker.toList ++ (call.registers? l).toList) := by
        generalize call.apply l = l' at hhears ⊢
        generalize call.registers? l = waker? at hhears ⊢
        cases hhears with
        | registers here same idle =>
            rw [here, same, List.append_assoc]
            exact (List.sublist_append_right _ _).append_left _
        | rests same stays => rw [same.waker, same.woken]; simp
        | rings told => rw [told.waker, told.woken]; cases l.queue.waker <;> simp
      rw [registered, ← List.append_assoc]
      exact hnext.trans (hfirst.append_right _)

/-- What is true of the wakers of a listener after these calls. -/
structure Prompt (l : Listener) (calls : List Call) : Prop where
  /-- A waker is there only while there is nothing to read and more may come. -/
  idle : ∀ waker, (l.callAll calls).queue.waker = some waker → (l.callAll calls).Idle
  /-- Take the last poll that has found nothing.  Either its waker has been called since, once, and
  no other has; or it has not, and on any stream a poll would still find nothing. -/
  told : ∀ past s waker later, calls = past ++ .act s (.poll waker) :: later →
    (s.pollListener waker (l.callAll past)).1 = .pending →
    registered ((l.callAll past).callAll [.act s (.poll waker)]) later = [] →
      (l.callAll calls).queue.woken = waker :: (l.callAll past).queue.woken ∨
      (l.callAll calls).queue.woken = (l.callAll past).queue.woken ∧
        ∀ (s' : Stream) waker', (s'.pollListener waker' (l.callAll calls)).1 = .pending
  /-- Wakers are called in the order in which they were registered, each once at most. -/
  once : ((l.callAll calls).queue.woken.reverse ++
    (l.callAll calls).queue.waker.toList).Sublist (l.registered calls)

/-- **No wake-up is lost.**  Whatever is done to a listener, in whatever order: it has a waker only
while it is idle; the waker of a poll that has found nothing is called before a poll can find
anything, unless a newer poll has put its own in its place; and no waker is called twice. -/
theorem prompt (id : ListenerId) (options : ListenOptions) (readSize : ℕ) (calls : List Call) :
    Prompt { id, options, readSize } calls := by
  have hnew : Attentive { id, options, readSize } := fun hwaker => absurd rfl hwaker
  refine ⟨fun waker hwaker => hnew.callAll calls (by simp [hwaker]), ?_,
    woken_sublist hnew calls⟩
  rintro past s waker later rfl hpending hnewer
  generalize hl : callAll { id, options, readSize } past = l at hpending hnewer ⊢
  have hattentive : l.Attentive := hl ▸ hnew.callAll past
  have hpolled := hears_apply hattentive (.act s (.poll waker))
  have hpolled' := hattentive.hears hpolled
  rw [registers?_of_pending hpending] at hpolled
  have hafter : callAll { id, options, readSize } (past ++ .act s (.poll waker) :: later) =
      (Call.apply l (.act s (.poll waker))).callAll later := by
    rw [callAll_append, hl]
    rfl
  rw [hafter]
  change registered (Call.apply l (.act s (.poll waker))) later = [] at hnewer
  generalize Call.apply l (.act s (.poll waker)) = polled at hpolled hpolled' hnewer ⊢
  obtain ⟨hhere, hsame, -⟩ := hpolled
  rcases told_of_waiting hpolled' hnewer with hrests | hrings
  · refine Or.inr ⟨hrests.woken.trans hsame, fun s' waker' => ?_⟩
    have hidle : (polled.callAll later).Idle :=
      hpolled'.callAll later (by simp [hrests.waker, hhere])
    rw [hidle.poll]
  · refine Or.inl ?_
    rw [hrings.woken, hhere, hsame]
    rfl

end Listener

end RewindRelay
