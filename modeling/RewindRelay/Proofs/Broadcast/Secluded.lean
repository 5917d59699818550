import RewindRelay.Proofs.Stream.Visit
/-!
# Listeners do not disturb each other

A listener is told how its own calls end, what housekeeping has to report of it, and whether it was
ended for being slow.  Nothing of that depends on the other listeners.  When everything that they do
is left out of a run, from joining to leaving, the listener is told the same and is in the same
state at every point.

Without the others the listener is the first to join, and so it gets another number.  A number is
only a name: it is left out of what is compared.

* `Stream.only` — a stream with one of its listeners.
* `Stream.Operation.own?`, `Broadcast.ownEvents` — a run with the operations of one listener.
* `Stream.Operation.answer?`, `Broadcast.views` — what a listener is told, and its state.
* `Broadcast.only_step` — **one event**, without the other listeners.
* `Broadcast.secluded` — **listeners do not disturb each other**, and neither does the order in
  which they are served.
-/

namespace RewindRelay

/-- The same listener by another number. -/
def Listener.renumber (l : Listener) (id : ListenerId) : Listener := { l with id }

namespace Stream

variable {s : Stream} {id : ListenerId}

/-- The stream when only one listener has ever joined. -/
def only (s : Stream) (id : ListenerId) : Stream :=
  { s with
    listeners := (s.listeners.filter fun l => l.id = id).map fun l => l.renumber 0
    nextListener := if id < s.nextListener then 1 else 0 }

/-! ## What a listener is told -/

/-- The answer to a listener. -/
inductive Answer
  | pumped (result : Except Refusal Nat)
  | polled (outcome : PollOutcome)
  | read (outcome : ReadOutcome)
  | interval (stats : ListenStats)
  | left (total : ListenStats)
  /-- What is reported of it. -/
  | reported (reports : List Report)
  /-- Was it slow? -/
  | swept (ended : Bool)

/-- How a call of the listener ends. -/
def ListenerAction.answer? (s : Stream) (l : Listener) : ListenerAction → Option Answer
  | .pump => some (.pumped (s.pumpListener l).1)
  | .poll waker => some (.polled (s.pollListener waker l).1)
  | .read size => some (.read (l.read size).1)
  | .enqueue _ => none
  | .takeInterval => some (.interval l.takeInterval.1)
  | .leave => some (.left l.queue.total)

/-- What an operation tells the listener with this number. -/
def Operation.answer? (s : Stream) (id : ListenerId) : Operation → Option Answer
  | .serve k a => if k = id then (s.listener? id).bind (a.answer? s) else none
  | .reports => some (.reported
      ((s.reports.1.filter fun r => r.id = id).map fun r => { r with id := 0 }))
  | .disconnectSlow maxBytes => some (.swept (decide (id ∈ (s.disconnectSlow maxBytes).1)))
  | _ => none

/-! ## Without the other listeners -/

/-- An operation when only one listener has ever joined; nothing when it is another one's.  The
number is what the next listener to join will get. -/
def Operation.own? (id next : ListenerId) : Operation → Option Operation
  | .join options readSize => if next = id then some (.join options readSize) else none
  | .serve k a => if k = id then some (.serve 0 a) else none
  | .drop k => if k = id then some (.drop 0) else none
  | op => some op

/-- Does something that looks at no number. -/
def Unnamed (f : Listener → Listener) : Prop := ∀ l k, f (l.renumber k) = (f l).renumber k

lemma Unnamed.id_eq {f : Listener → Listener} (hf : Unnamed f) (l : Listener) :
    (f l).id = l.id := by
  have hself := congrArg Listener.id (hf l l.id)
  exact hself

/-- Does something to some listeners, which it tells by what they are. -/
lemma Unnamed.ite {p : Listener → Bool} {f : Listener → Listener} (hf : Unnamed f)
    (hp : ∀ l k, p (l.renumber k) = p l) : Unnamed fun l => if p l then f l else l := by
  intro l k
  simp only [hp]
  split
  · exact hf l k
  · rfl

lemma unnamed_deliverTo (store : Store) : Unnamed (deliverTo store) := by
  intro l k
  simp only [deliverTo, Listener.renumber]
  split
  · rfl
  · split <;> rfl

lemma settle_renumber (l : Listener) (offset : ℕ) (chunks : List Chunk) (k : ListenerId) :
    settle (l.renumber k) offset chunks = (settle l offset chunks).renumber k := by
  obtain ⟨_, ⟨_, _, once, _⟩, _, _, _, _⟩ := l
  cases once <;> rfl

lemma attach_renumber (s : Stream) (l : Listener) (k : ListenerId) :
    s.attach (l.renumber k) = (s.attach l).map fun r => (r.1, r.2.renumber k) := by
  have hoptions : (l.renumber k).options = l.options := rfl
  simp only [attach, settle_renumber, hoptions]
  split
  · rfl
  · split
    · rfl
    · cases s.seatOffset l.options <;> rfl

lemma pumpListener_renumber (s : Stream) (l : Listener) (k : ListenerId) :
    s.pumpListener (l.renumber k) = ((s.pumpListener l).1, (s.pumpListener l).2.renumber k) := by
  have hphase : (l.renumber k).phase = l.phase := rfl
  simp only [pumpListener, hphase, attach_renumber]
  split
  · cases s.attach l <;> rfl
  · rfl

lemma pollListener_renumber (s : Stream) (waker : Waker) (l : Listener) (k : ListenerId) :
    s.pollListener waker (l.renumber k) =
      ((s.pollListener waker l).1, (s.pollListener waker l).2.renumber k) := by
  have hphase : (l.renumber k).phase = l.phase := rfl
  simp only [pollListener, hphase, pumpListener_renumber]
  cases l.phase with
  | closed => rfl
  | streaming => rfl
  | seeding => rcases s.pumpListener l with ⟨(_ | _) | _, l'⟩ <;> rfl

lemma read_renumber (l : Listener) (size : ℕ) (k : ListenerId) :
    (l.renumber k).read size = ((l.read size).1, (l.read size).2.renumber k) := by
  have hphase : (l.renumber k).phase = l.phase := rfl
  simp only [Listener.read, hphase]
  cases l.phase <;> rfl

lemma unnamed_apply (s : Stream) (a : ListenerAction) : Unnamed (a.apply s) := by
  intro l k
  cases a with
  | pump => exact congrArg Prod.snd (s.pumpListener_renumber l k)
  | poll waker => exact congrArg Prod.snd (s.pollListener_renumber waker l k)
  | read size => exact congrArg Prod.snd (read_renumber l size k)
  | enqueue cs => rfl
  | takeInterval => rfl
  | leave =>
      have hphase : (l.renumber k).phase = l.phase := rfl
      simp only [ListenerAction.apply, Listener.close, hphase]
      split <;> rfl

lemma only_map {f : Listener → Listener} (hf : Unnamed f) (s : Stream) (id : ListenerId) :
    only { s with listeners := s.listeners.map f } id =
      { s.only id with listeners := (s.only id).listeners.map f } := by
  have hlisteners : ((s.listeners.map f).filter fun l => l.id = id).map (fun l => l.renumber 0) =
      ((s.listeners.filter fun l => l.id = id).map fun l => l.renumber 0).map f := by
    rw [List.filter_map, List.map_map, List.map_map]
    have hsame : (fun l : Listener => decide (l.id = id)) ∘ f = fun l => decide (l.id = id) := by
      funext l
      simp only [Function.comp_apply, hf.id_eq]
    rw [hsame]
    exact List.map_congr_left fun l _ => (hf l 0).symm
  exact congrArg (fun ls => { s.only id with listeners := ls }) hlisteners

/-- The others play no part for what is done to none of them. -/
lemma listener?_only (s : Stream) (id : ListenerId) :
    (s.only id).listener? 0 = (s.listener? id).map fun l => l.renumber 0 := by
  have hall : ∀ ls : List Listener, (ls.map fun l => l.renumber 0).find? (fun l => l.id == 0) =
      ls.head?.map fun l => l.renumber 0 := by
    intro ls
    cases ls with
    | nil => rfl
    | cons l rest => rfl
  rw [listener?, only, hall, List.head?_filter, listener?]
  simp only [beq_eq_decide]

lemma only_put_self (s : Stream) {l : Listener} (hl : l.id = id) :
    (s.put l).only id = (s.only id).put (l.renumber 0) := by
  have hfound : ∀ l' : Listener, (if l'.id = id then l else l').id = l'.id := by
    intro l'
    split
    · next heq => rw [hl, heq]
    · rfl
  simp only [only, put, hl, List.filter_map, List.map_map]
  congr 1
  have hsame : ((fun l' : Listener => decide (l'.id = id)) ∘
      fun l' => if l'.id = id then l else l') = fun l' => decide (l'.id = id) := by
    funext l'
    simp only [Function.comp_apply, hfound]
  rw [hsame]
  refine List.map_congr_left fun l' hl' => ?_
  have hid : l'.id = id := by simpa using (List.mem_filter.mp hl').2
  simp [hid, Listener.renumber]

lemma only_put_of_ne (s : Stream) {l : Listener} (hl : l.id ≠ id) :
    (s.put l).only id = s.only id := by
  have hkept : (s.listeners.map fun l' => if l'.id = l.id then l else l').filter
      (fun l' => l'.id = id) = s.listeners.filter fun l' => l'.id = id := by
    induction s.listeners with
    | nil => rfl
    | cons first rest ih =>
        rw [List.map_cons, List.filter_cons, List.filter_cons, ih]
        by_cases hfirst : first.id = l.id
        · rw [if_pos hfirst, hfirst]
          simp [hl]
        · rw [if_neg hfirst]
  exact congrArg (fun ls : List Listener =>
    { s.only id with listeners := ls.map fun l : Listener => l.renumber 0 }) hkept

lemma only_act_self (s : Stream) (id : ListenerId) (a : ListenerAction) :
    (s.act id a).only id = (s.only id).act 0 a := by
  cases hl : s.listener? id with
  | none =>
      have hnone : (s.only id).listener? 0 = none := by rw [listener?_only, hl]; rfl
      simp only [act, serve, hl, hnone, Option.map_none]
  | some l =>
      have hl' : (s.only id).listener? 0 = some (l.renumber 0) := by rw [listener?_only, hl]; rfl
      have happly : a.apply (s.only id) (l.renumber 0) = (a.apply s l).renumber 0 :=
        unnamed_apply s a l 0
      rw [act_eq hl, act_eq hl', happly]
      exact only_put_self s ((Listener.id_apply s l a).trans (listener?_id hl))

lemma only_act_of_ne (s : Stream) {k : ListenerId} (hk : k ≠ id) (a : ListenerAction) :
    (s.act k a).only id = s.only id := by
  cases hl : s.listener? k with
  | none => simp only [act, serve, hl, Option.map_none]
  | some l =>
      rw [act_eq hl]
      exact only_put_of_ne s (by rw [Listener.id_apply, listener?_id hl]; exact hk)

lemma only_forget_self (s : Stream) (id : ListenerId) :
    (s.forget id).only id = (s.only id).forget 0 := by
  have hnone : ((s.listeners.filter fun l => l.id != id).filter fun l => l.id = id) = [] := by
    rw [List.filter_filter]
    exact List.filter_eq_nil_iff.mpr fun l _ => by simp
  have hnone' : ((s.only id).listeners.filter fun l => l.id != 0) = [] := by
    refine List.filter_eq_nil_iff.mpr fun l hl => ?_
    obtain ⟨l', -, rfl⟩ := List.mem_map.mp hl
    simp [Listener.renumber]
  simp only [forget, hnone']
  simp only [only, hnone, List.map_nil]

lemma only_forget_of_ne (s : Stream) {k : ListenerId} (hk : k ≠ id) :
    (s.forget k).only id = s.only id := by
  have hkept : ((s.listeners.filter fun l => l.id != k).filter fun l => l.id = id) =
      s.listeners.filter fun l => l.id = id := by
    rw [List.filter_filter]
    refine List.filter_congr fun l _ => ?_
    by_cases hid : l.id = id
    · simp [hid, Ne.symm hk]
    · simp [hid]
  exact congrArg (fun ls : List Listener =>
    { s.only id with listeners := ls.map fun l : Listener => l.renumber 0 }) hkept

/-! ## Operations -/

lemma only_forgetCursors (s : Stream) (id : ListenerId) :
    s.forgetCursors.only id = (s.only id).forgetCursors :=
  only_map (fun _ _ => rfl) s id

lemma only_push (s : Stream) (id : ListenerId) (c : Chunk) :
    (s.push c).2.only id = ((s.only id).push c).2 := by
  simp only [push, onStore_eq]
  have halive : (s.only id).destroyed = s.destroyed := rfl
  have hstore : (s.only id).store = s.store := rfl
  rw [halive, hstore]
  split
  · rfl
  · cases (s.store.insert c).1 with
    | appended =>
        exact only_map (unnamed_deliverTo (s.store.insert c).2)
          { s with store := (s.store.insert c).2, nowPlaying := s.playing c } id
    | prepended => rfl
    | duplicate => rfl
    | outOfOrder => rfl

lemma only_updateVitals (s : Stream) (id : ListenerId) (v : Vitals) :
    (s.only id).updateVitals v = ((s.updateVitals v).1, (s.updateVitals v).2.only id) := by
  have hchange : (s.only id).vitalsChange v.streamKey = s.vitalsChange v.streamKey := rfl
  simp only [updateVitals, hchange]
  split
  · cases s.vitalsChange v.streamKey with
    | initial => rfl
    | compatible => rfl
    | reset discarded =>
        refine Prod.ext rfl ?_
        have hreset : (s.only id).reset = s.reset.only id :=
          (only_forgetCursors { s with store := s.store.clear } id).symm
        simp only [hreset]
        rfl
  · rfl

lemma only_destroy (s : Stream) (id : ListenerId) : s.destroy.only id = (s.only id).destroy := by
  have halive : (s.only id).destroyed = s.destroyed := rfl
  simp only [destroy, halive]
  split
  · rfl
  · exact only_map (Unnamed.ite (fun _ _ => rfl) fun _ _ => rfl)
      { s with destroyed := true, store := s.store.clear } id

lemma only_join_self (s : Stream) (options : ListenOptions) (readSize : ℕ) :
    (s.join options readSize).2.only s.nextListener =
      ((s.only s.nextListener).join options readSize).2 := by
  simp only [join, only, List.filter_append, List.map_append, Nat.lt_succ_self, if_true,
    Nat.lt_irrefl, if_false]
  simp [Listener.renumber]

lemma only_join_of_ne (s : Stream) (hid : s.nextListener ≠ id) (options : ListenOptions)
    (readSize : ℕ) : (s.join options readSize).2.only id = s.only id := by
  have hnext : id < s.nextListener + 1 ↔ id < s.nextListener := by
    rw [Nat.lt_succ_iff_lt_or_eq, or_iff_left (Ne.symm hid)]
  simp only [join, only, List.filter_append, List.map_append, hnext]
  simp [hid]

/-- **One operation**, without the other listeners: they play no part in it. -/
theorem only_apply (s : Stream) (id : ListenerId) (op : Operation) :
    (op.apply s).only id =
      match op.own? id s.nextListener with
      | some op' => op'.apply (s.only id)
      | none => s.only id := by
  cases op with
  | push c => exact s.only_push id c
  | updateVitals v => exact (congrArg Prod.snd (s.only_updateVitals id v)).symm
  | setWindow seconds => rfl
  | adjust => rfl
  | reset => exact only_forgetCursors _ id
  | destroy => exact s.only_destroy id
  | join options readSize =>
      by_cases hid : s.nextListener = id
      · subst hid
        simp only [Operation.own?, if_true]
        exact s.only_join_self options readSize
      · simp only [Operation.own?, if_neg hid]
        exact s.only_join_of_ne hid options readSize
  | serve k a =>
      by_cases hk : k = id
      · subst hk
        simp only [Operation.own?, if_true]
        exact s.only_act_self k a
      · simp only [Operation.own?, if_neg hk]
        exact s.only_act_of_ne hk a
  | drop k =>
      by_cases hk : k = id
      · subst hk
        simp only [Operation.own?, if_true, Operation.apply]
        rw [only_forget_self, only_act_self]
      · simp only [Operation.own?, if_neg hk, Operation.apply]
        rw [only_forget_of_ne _ hk, only_act_of_ne s hk]
  | reports => exact only_map (Unnamed.ite (fun _ _ => rfl) fun _ _ => rfl) s id
  | disconnectSlow maxBytes => exact only_map (Unnamed.ite (fun _ _ => rfl) fun _ _ => rfl) s id

/-! ## Answers -/

lemma answer?_renumber (s : Stream) (l : Listener) (k : ListenerId) (a : ListenerAction) :
    a.answer? s (l.renumber k) = a.answer? s l := by
  cases a with
  | pump => simp only [ListenerAction.answer?, pumpListener_renumber]
  | poll waker => simp only [ListenerAction.answer?, pollListener_renumber]
  | read size => simp only [ListenerAction.answer?, read_renumber]
  | enqueue cs => rfl
  | takeInterval => rfl
  | leave => rfl

/-- What is reported of a listener is read off that listener alone. -/
lemma reports_only (s : Stream) (id : ListenerId) :
    ((s.only id).reports.1.filter fun r => r.id = 0).map (fun r => { r with id := 0 }) =
      (s.reports.1.filter fun r => r.id = id).map fun r => { r with id := 0 } := by
  simp only [reports, only]
  induction s.listeners with
  | nil => rfl
  | cons l rest ih =>
      rw [List.filter_cons]
      by_cases hid : l.id = id
      · rw [if_pos (by simpa using hid), List.map_cons, List.filterMap_cons, List.filterMap_cons]
        cases hseat : l.seat with
        | none => simpa [report?, Listener.renumber, hseat] using ih
        | some seat => simpa [report?, Listener.renumber, hseat, hid, Listener.queuedBytes] using ih
      · rw [if_neg (by simpa using hid), ih, List.filterMap_cons]
        cases hseat : l.seat with
        | none => simp [report?, hseat]
        | some seat => simp [report?, hseat, hid]

lemma mem_disconnectSlow (s : Stream) (id : ListenerId) (maxBytes : ℕ) :
    id ∈ (s.disconnectSlow maxBytes).1 ↔ ∃ l ∈ s.listeners, l.id = id ∧ isSlow maxBytes l := by
  simp only [disconnectSlow, List.mem_map, List.mem_filter]
  constructor
  · rintro ⟨l, ⟨hmem, hslow⟩, hid⟩
    exact ⟨l, hmem, hid, hslow⟩
  · rintro ⟨l, hmem, hid, hslow⟩
    exact ⟨l, ⟨hmem, hslow⟩, hid⟩

/-- Whether a listener is slow is seen from that listener alone. -/
lemma mem_disconnectSlow_only (s : Stream) (id : ListenerId) (maxBytes : ℕ) :
    0 ∈ ((s.only id).disconnectSlow maxBytes).1 ↔ id ∈ (s.disconnectSlow maxBytes).1 := by
  rw [mem_disconnectSlow, mem_disconnectSlow]
  constructor
  · rintro ⟨l, hmem, -, hslow⟩
    obtain ⟨l', hmem', rfl⟩ := List.mem_map.mp hmem
    obtain ⟨hl', hid⟩ := List.mem_filter.mp hmem'
    exact ⟨l', hl', by simpa using hid, hslow⟩
  · rintro ⟨l, hmem, hid, hslow⟩
    exact ⟨l.renumber 0, List.mem_map_of_mem (List.mem_filter.mpr ⟨hmem, by simpa using hid⟩), rfl,
      hslow⟩

/-- A listener is told the same without the others. -/
lemma answer?_own (s : Stream) (id : ListenerId) {op op' : Operation}
    (h : op.own? id s.nextListener = some op') : op'.answer? (s.only id) 0 = op.answer? s id := by
  cases op with
  | serve k a =>
      simp only [Operation.own?] at h
      split_ifs at h with hk
      cases h
      simp only [Operation.answer?, if_true, if_pos hk, listener?_only]
      cases s.listener? id with
      | none => rfl
      | some l => exact answer?_renumber s l 0 a
  | join options readSize =>
      simp only [Operation.own?] at h
      split_ifs at h
      cases h
      rfl
  | drop k =>
      simp only [Operation.own?] at h
      split_ifs at h
      cases h
      rfl
  | reports =>
      cases h
      simp only [Operation.answer?, reports_only]
  | disconnectSlow maxBytes =>
      cases h
      simp only [Operation.answer?, mem_disconnectSlow_only]
  | _ =>
      cases h
      rfl

/-! ## Preloads -/

lemma only_applyFrame (s : Stream) (id : ListenerId) (summary : Summary) (f : Frame) :
    (s.only id).applyFrame summary f =
      ((s.applyFrame summary f).1, (s.applyFrame summary f).2.only id) := by
  cases f with
  | header h =>
      simp only [applyFrame, only_updateVitals]
      rcases s.updateVitals h.vitals with ⟨_ | _, s'⟩ <;> rfl
  | chunk c =>
      have halive : (s.only id).destroyed = s.destroyed := rfl
      simp only [applyFrame, halive]
      split <;> rfl

lemma only_advance (C : Codec) (s : Stream) (id : ListenerId) (p : Preload) :
    (s.only id).advance C p = ((s.advance C p).1, (s.advance C p).2.only id) := by
  simp only [advance]
  split
  · rfl
  · rfl
  · next f loader _ =>
      simp only [only_applyFrame]
      rcases s.applyFrame p.summary f with ⟨_ | _, s'⟩ <;> rfl

lemma only_stepPreload (C : Codec) (s : Stream) (id : ListenerId) (p : Preload)
    (a : PreloadAction) :
    (s.only id).stepPreload C p a = ((s.stepPreload C p a).1, (s.stepPreload C p a).2.only id) := by
  cases a with
  | advance => simp only [stepPreload, only_advance]
  | transport event =>
      simp only [stepPreload]
      split
      · cases event with
        | bytes data => rfl
        | failed reason => rfl
        | closed =>
            simp only [transport]
            split <;> rfl
      · rfl
  | cancel => rfl

end Stream

namespace Broadcast

/-! ## Runs -/

/-- An event when only one listener has ever joined; nothing when it is another one's. -/
def Event.own? (id next : ListenerId) : Event → Option Event
  | .operate op => (op.own? id next).map .operate
  | event => some event

/-- The number of the listener that joins next, after an event. -/
def Event.nextListener (next : ListenerId) : Event → ListenerId
  | .operate (.join _ _) => next + 1
  | _ => next

/-- A run without the operations of the other listeners. -/
def ownEvents (id : ListenerId) : (next : ListenerId) → List Event → List Event
  | _, [] => []
  | next, event :: rest =>
    (Event.own? id next event).toList ++ ownEvents id (Event.nextListener next event) rest

/-- What an event tells the listener with this number. -/
def Event.answer? (b : Broadcast) (id : ListenerId) : Event → Option Stream.Answer
  | .operate op => op.answer? b.stream id
  | _ => none

/-- What a listener sees of an event: what it is told, and its own state then. -/
structure View where
  answer? : Option Stream.Answer
  listener? : Option Listener

/-- What an event shows the listener with this number. -/
def view (C : Codec) (b : Broadcast) (id : ListenerId) (event : Event) : View :=
  { answer? := Event.answer? b id event
    listener? := ((b.step C event).stream.listener? id).map fun l => l.renumber 0 }

/-- What a run shows the listener with this number, at every event that is not another listener's
own. -/
def views (C : Codec) (id : ListenerId) : Broadcast → List Event → List View
  | _, [] => []
  | b, event :: rest =>
    ((Event.own? id b.stream.nextListener event).map fun _ => b.view C id event).toList ++
      views C id (b.step C event) rest

/-- The same, when only one listener has ever joined. -/
def only (b : Broadcast) (id : ListenerId) : Broadcast := { b with stream := b.stream.only id }

variable {C : Codec} {b : Broadcast} {id : ListenerId}

lemma nextListener_step (C : Codec) (b : Broadcast) (event : Event) :
    (b.step C event).stream.nextListener = Event.nextListener b.stream.nextListener event := by
  cases event with
  | operate op =>
      have hnext := b.stream.nextListener_apply op
      cases op <;> exact hnext
  | start => rfl
  | preload k a =>
      simp only [step]
      split
      · next p _ => exact (b.stream.ids_stepPreload C p a).2
      · rfl

/-- **One event**, without the other listeners. -/
theorem only_step (C : Codec) (b : Broadcast) (id : ListenerId) (event : Event) :
    (b.step C event).only id =
      match Event.own? id b.stream.nextListener event with
      | some event' => (b.only id).step C event'
      | none => b.only id := by
  cases event with
  | operate op =>
      have hop := b.stream.only_apply id op
      simp only [Event.own?]
      cases hown : op.own? id b.stream.nextListener with
      | none =>
          rw [hown] at hop
          exact congrArg (fun s => { b with stream := s }) hop
      | some op' =>
          rw [hown] at hop
          exact congrArg (fun s => { b with stream := s }) hop
  | start => rfl
  | preload k a =>
      simp only [Event.own?, step, only]
      split
      · rw [Stream.only_stepPreload]
        rfl
      · rfl

/-- An event of its own, or of nobody's, shows a listener the same without the others. -/
lemma view_only {event event' : Event}
    (h : Event.own? id b.stream.nextListener event = some event') :
    (b.only id).view C 0 event' = b.view C id event := by
  have hstep : (b.step C event).only id = (b.only id).step C event' := by rw [only_step, h]
  have hlistener : (((b.only id).step C event').stream.listener? 0).map (fun l => l.renumber 0) =
      ((b.step C event).stream.listener? id).map fun l => l.renumber 0 := by
    rw [← hstep]
    have honly := (b.step C event).stream.listener?_only id
    simp only [only, honly, Option.map_map]
    rfl
  have hanswer : Event.answer? (b.only id) 0 event' = Event.answer? b id event := by
    cases event with
    | operate op =>
        simp only [Event.own?, Option.map_eq_some_iff] at h
        obtain ⟨op', hop, rfl⟩ := h
        exact b.stream.answer?_own id hop
    | start => cases h; rfl
    | preload k a => cases h; rfl
  rw [view, view, hanswer, hlistener]

/-- What is left of an event is left as it is once more. -/
lemma own?_own {event event' : Event}
    (h : Event.own? id b.stream.nextListener event = some event') :
    Event.own? 0 (b.only id).stream.nextListener event' = some event' := by
  cases event with
  | operate op =>
      simp only [Event.own?, Option.map_eq_some_iff] at h
      obtain ⟨op', hop, rfl⟩ := h
      have hsame : op'.own? 0 (b.only id).stream.nextListener = some op' := by
        cases op with
        | join options readSize =>
            simp only [Stream.Operation.own?] at hop
            split_ifs at hop with hid
            cases hop
            have hnext : (b.only id).stream.nextListener = 0 := by
              rw [only, Stream.only, hid, if_neg (Nat.lt_irrefl _)]
            rw [hnext]
            rfl
        | serve k a =>
            simp only [Stream.Operation.own?] at hop
            split_ifs at hop
            cases hop
            rfl
        | drop k =>
            simp only [Stream.Operation.own?] at hop
            split_ifs at hop
            cases hop
            rfl
        | _ =>
            cases hop
            rfl
      simp only [Event.own?, hsame, Option.map_some]
  | start => cases h; rfl
  | preload k a => cases h; rfl

/-- A whole run, without the other listeners. -/
lemma views_only (C : Codec) (b : Broadcast) (id : ListenerId) (events : List Event) :
    views C 0 (b.only id) (ownEvents id b.stream.nextListener events) = views C id b events ∧
      (b.only id).run C (ownEvents id b.stream.nextListener events) = (b.run C events).only id := by
  induction events generalizing b with
  | nil => exact ⟨rfl, rfl⟩
  | cons event rest ih =>
      obtain ⟨hviews, hrun⟩ := ih (b.step C event)
      rw [nextListener_step] at hviews hrun
      rw [ownEvents, views]
      cases hown : Event.own? id b.stream.nextListener event with
      | none =>
          have hstep : (b.step C event).only id = b.only id := by rw [only_step, hown]
          rw [hstep] at hviews hrun
          exact ⟨hviews, hrun⟩
      | some event' =>
          have hstep : (b.step C event).only id = (b.only id).step C event' := by
            rw [only_step, hown]
          rw [hstep] at hviews hrun
          simp only [Option.toList_some, List.singleton_append, Option.map_some]
          refine ⟨?_, hrun⟩
          rw [views, own?_own hown, view_only hown, hviews]
          rfl

/-- **Listeners do not disturb each other.**  What a listener is told, and its state with its queue
and its statistics, is what it would be if no other one had ever joined; and the order in which the
listeners are served makes no difference to anything. -/
theorem secluded (C : Codec) (name : String) (windowSeconds : Float) (readSize : ℕ)
    (id : ListenerId) (events : List Event) :
    views C 0 (new name windowSeconds readSize) (ownEvents id 0 events) =
        views C id (new name windowSeconds readSize) events ∧
      ((new name windowSeconds readSize).run C (ownEvents id 0 events)).stream.listener? 0 =
        (((new name windowSeconds readSize).run C events).stream.listener? id).map
          (fun l => l.renumber 0) ∧
      ∀ b, Ordered C (new name windowSeconds readSize) events b ↔
        b = (new name windowSeconds readSize).run C events := by
  set b := new name windowSeconds readSize with hb
  have honly : b.only id = b := by
    simp only [hb, only, new, Stream.only, Stream.new, Stream.adjust, List.filter_nil, List.map_nil,
      Nat.not_lt_zero, if_false]
  obtain ⟨hviews, hrun⟩ := views_only C b id events
  rw [honly] at hviews hrun
  refine ⟨hviews, ?_, fun b' => ordered_iff C (numbered_new name windowSeconds readSize) events⟩
  have hnext : b.stream.nextListener = 0 := rfl
  rw [hnext] at hrun
  rw [hrun]
  exact Stream.listener?_only _ id

end Broadcast

end RewindRelay
