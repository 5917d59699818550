import RewindRelay.Proofs.Broadcast.Loading
import RewindRelay.Proofs.Stream.Seat
/-!
# Playback without gaps

A listener is given its first audio, and from then on what every live chunk makes due.  Meanwhile
old audio leaves the store, history enters it at the old end, and the store may grow.  What the
listener is given in all is one stretch of a *timeline*: the audio that was there when it came,
followed by every chunk that was appended since.

The timeline is cut by what the listener was given last.  All that comes after the cut is in the
store, at its newest end, and this is what every operation keeps: a chunk that is still to come is
never evicted, because the store is larger than the listener is behind.

* `Followed` — a stream, a timeline, and what was queued for one listener.
* `Stream.Interrupts` — the operations through which a listener does not simply play on.
* `Followed.GapFree` — what is to hold at every moment.
* `Followed.Follows` — the invariant behind it.
* `Broadcast.Reachable.gapFree` — **playback has no gaps.**
-/

namespace RewindRelay

open Chunk (Ascending)

/-- The later of two chunks; the second one if there is no first, or if they are the same. -/
def Chunk.later (a? : Option Chunk) (b : Chunk) : Chunk :=
  match a? with
  | some a => if b.ts < a.ts then a else b
  | none => b

namespace Stream

/-- The audio in the queue of a listener. -/
def waiting (s : Stream) (id : ListenerId) : List Chunk :=
  match s.listener? id with
  | some l => l.queue.chunks
  | none => []

/-- What an operation adds at the newest end of the audio. -/
def appended (s : Stream) : Operation → List Chunk
  | .push c => if s.destroyed = false ∧ s.store.placement c.ts = .appended then [c] else []
  | _ => []

/-- Does a listener that does this go on listening? -/
def ListenerAction.isListening : ListenerAction → Bool
  | .pump | .poll _ | .read _ | .takeInterval => true
  | .enqueue _ | .leave => false

/-- A listener does not simply play on when it leaves or is ended, when the stream starts over, or
when its store becomes smaller. -/
def Interrupts (s : Stream) (id : ListenerId) : Operation → Prop
  | .push _ | .join _ _ | .reports => False
  | .updateVitals v =>
    (s.updateVitals v).2.store.capacity < s.store.capacity ∨
      ∃ discarded, (s.updateVitals v).1 = .ok (.reset discarded)
  | .setWindow seconds => (s.setWindow seconds).store.capacity < s.store.capacity
  | .adjust => s.adjust.store.capacity < s.store.capacity
  | .reset | .destroy => True
  | .serve id' a => id' = id ∧ a.isListening = false
  | .drop id' => id' = id
  | .disconnectSlow maxBytes => id ∈ (s.disconnectSlow maxBytes).1

end Stream

/-- A stream in use, seen from one listener. -/
structure Followed where
  stream : Stream
  /-- The audio that was there at first, and then all that was appended. -/
  timeline : List Chunk
  /-- All that was queued for the listener. -/
  queued : List Chunk := []

namespace Followed

/-- Nothing has happened yet. -/
def start (s : Stream) : Followed := { stream := s, timeline := s.store.chunks }

/-- An operation; a queue grows at its end only. -/
def step (id : ListenerId) (x : Followed) (op : Stream.Operation) : Followed where
  stream := op.apply x.stream
  timeline := x.timeline ++ x.stream.appended op
  queued := x.queued ++ ((op.apply x.stream).waiting id).drop (x.stream.waiting id).length

/-- What a listener can rely on that came when the stream held `audio`, was given `seed`, and is
held `offset` chunks behind live. -/
structure GapFree (id : ListenerId) (audio seed : List Chunk) (offset : ℕ) (x : Followed) :
    Prop where
  seated : ∃ l seat, x.stream.listener? id = some l ∧ l.seat = some seat ∧ seat.offset = offset
  /-- The timeline goes forward in time, so a stretch of it has no repetition and no reordering. -/
  ordered : Ascending x.timeline
  seed_first : seed <+: x.queued
  /-- What was queued is a stretch of the timeline, and what follows it there is in the store. -/
  stretch : ∃ front rest, x.timeline = front ++ x.queued ++ rest ∧
    rest <:+ x.stream.store.chunks ∧ (x.queued = [] → rest.length = offset)
  /-- Since the first appended chunk, the newest queued one is the one at the offset, or that of
  the first audio which is later. -/
  newest : audio.length < x.timeline.length →
    ∃ i held, x.stream.store.indexOfOffset? offset = some i ∧
      x.stream.store.chunks[i]? = some held ∧
      x.queued.getLast? = some (Chunk.later seed.getLast? held)

end Followed

/-! ## Operations that append nothing -/

/-- A listener keeps its seat, and its queue is at most read. -/
structure Listener.PlaysOn (l l' : Listener) : Prop where
  phase : l'.phase = l.phase
  seat : l'.seat = l.seat
  closed : l'.queue.closed = l.queue.closed
  queue : l'.queue.chunks <:+ l.queue.chunks

lemma Listener.playsOn_refl (l : Listener) : l.PlaysOn l := ⟨rfl, rfl, rfl, List.suffix_refl _⟩

namespace Stream

/-- An operation that takes nothing from the newest end of the audio and adds nothing there, and
lets a listener play on. -/
structure Quiet (id : ListenerId) (s s' : Stream) : Prop where
  audio : ∃ older, s'.store.chunks = older ++ s.store.chunks ∧
    (s.store.chunks = [] → older = [])
  capacity : s.store.capacity ≤ s'.store.capacity
  destroyed : s'.destroyed = s.destroyed
  listener : ∀ l, s.listener? id = some l → l.phase = .streaming →
    ∃ l', s'.listener? id = some l' ∧ l.PlaysOn l'

variable {id : ListenerId} {s : Stream}

lemma quiet_of_listeners {s' : Stream}
    (ha : ∃ older, s'.store.chunks = older ++ s.store.chunks ∧ (s.store.chunks = [] → older = []))
    (hc : s.store.capacity ≤ s'.store.capacity) (hd : s'.destroyed = s.destroyed)
    (hl : s'.listeners = s.listeners) : Quiet id s s' := by
  refine ⟨ha, hc, hd, fun l hfind _ => ⟨l, ?_, l.playsOn_refl⟩⟩
  rw [listener?, hl]
  exact hfind

lemma quiet_refl (id : ListenerId) (s : Stream) : Quiet id s s :=
  quiet_of_listeners ⟨[], rfl, fun _ => rfl⟩ (Nat.le_refl _) rfl rfl

lemma quiet_adjust (h : s.Sound) {s₁ : Stream} (hs₁ : s₁.store = s.store)
    (hd : s₁.destroyed = s.destroyed) (hl : s₁.listeners = s.listeners)
    (hc : ¬ s₁.adjust.store.capacity < s.store.capacity) : Quiet id s s₁.adjust := by
  have hle : s.store.capacity ≤ s₁.adjust.store.capacity := Nat.le_of_not_lt hc
  refine quiet_of_listeners ⟨[], ?_, fun _ => rfl⟩ hle hd hl
  have hlen : s.store.chunks.length ≤ s₁.adjust.store.capacity := le_trans h.bounded hle
  calc s₁.adjust.store.chunks = s₁.store.chunks.rtake s₁.adjust.store.capacity := rfl
    _ = [] ++ s.store.chunks := by rw [hs₁, Store.rtake_eq_self hlen, List.nil_append]

lemma quiet_updateVitals (h : s.Sound) {v : Vitals}
    (hv : ¬ ((s.updateVitals v).2.store.capacity < s.store.capacity ∨
      ∃ discarded, (s.updateVitals v).1 = .ok (.reset discarded))) :
    Quiet id s (s.updateVitals v).2 := by
  obtain ⟨hcap, hno⟩ := not_or.mp hv
  rcases updateVitals_cases s v with ⟨-, heq⟩ | ⟨-, -, heq⟩ | ⟨hu, ⟨v', hv', hkey⟩, -⟩
  · rw [heq]
    exact quiet_refl id s
  · rw [heq] at hcap ⊢
    exact quiet_adjust h rfl rfl rfl hcap
  · exact absurd ⟨_, by simp [updateVitals, hu, vitalsChange, hv', hkey]; rfl⟩ hno

/-- History enters at the old end, if there is room for it. -/
lemma quiet_push (h : s.Sound) {c : Chunk} (hc : s.appended (.push c) = []) :
    Quiet id s (s.push c).2 := by
  rcases push_cases s c with ⟨-, heq⟩ | ⟨hd, hp, -⟩ | ⟨-, hp, heq⟩
  · rw [heq]
    exact quiet_refl id s
  · simp [appended, hd, hp] at hc
  · rw [heq]
    refine quiet_of_listeners ?_ (by simp) rfl rfl
    cases hplace : s.store.placement c.ts with
    | appended => exact absurd hplace hp
    | prepended =>
        have hne := ((Store.placement_eq_prepended_iff h.ascending).mp hplace).1
        refine ⟨[c].rtake (s.store.capacity - s.store.length), ?_, fun hnil => absurd hnil hne⟩
        rw [Store.chunks_insert_of_prepended hplace]
        exact Store.rtake_append [c] s.store.chunks h.bounded
    | duplicate =>
        exact ⟨[], Store.chunks_insert_of_not_isStored (by rw [hplace]; rfl), fun _ => rfl⟩
    | outOfOrder =>
        exact ⟨[], Store.chunks_insert_of_not_isStored (by rw [hplace]; rfl), fun _ => rfl⟩

lemma playsOn_apply {l : Listener} (hp : l.phase = .streaming) {a : ListenerAction}
    (ha : a.isListening = true) : l.PlaysOn (a.apply s l) := by
  cases a with
  | pump =>
      have hsame : (s.pumpListener l).2 = l := by simp [pumpListener, hp]
      simp only [ListenerAction.apply, hsame]
      exact l.playsOn_refl
  | poll waker =>
      simp only [ListenerAction.apply, pollListener, hp, readFor]
      exact ⟨hp.symm, rfl, Queue.closed_read _ _ _, Queue.chunks_read_suffix _ _ _⟩
  | read size =>
      simp only [ListenerAction.apply, Listener.read, hp]
      exact ⟨hp.symm, rfl, Queue.closed_read _ _ _, Queue.chunks_read_suffix _ _ _⟩
  | takeInterval => exact ⟨rfl, rfl, rfl, List.suffix_refl _⟩
  | enqueue cs => cases ha
  | leave => cases ha

/-- Each listener is changed on its own, and this one plays on. -/
lemma quiet_map {f : Listener → Listener} (hid : ∀ l, (f l).id = l.id)
    (hf : ∀ l, s.listener? id = some l → l.PlaysOn (f l)) :
    Quiet id s { s with listeners := s.listeners.map f } := by
  refine ⟨⟨[], rfl, fun _ => rfl⟩, Nat.le_refl _, rfl, fun l hl _ => ⟨f l, ?_, hf l hl⟩⟩
  rw [listener?_map s hid, hl]
  rfl

lemma quiet_act {id' : ListenerId} {a : ListenerAction}
    (h : ¬ (id' = id ∧ a.isListening = false)) : Quiet id s (s.act id' a) := by
  have hstore := s.store_act id' a
  refine ⟨⟨[], by rw [hstore]; rfl, fun _ => rfl⟩, by rw [hstore], s.destroyed_act id' a,
    fun l hl hp => ?_⟩
  rw [listener?_act, hl]
  by_cases hid : id = id'
  · have ha : a.isListening = true := by
      by_contra hne
      exact h ⟨hid.symm, by simpa using hne⟩
    exact ⟨_, by rw [if_pos hid]; rfl, playsOn_apply hp ha⟩
  · exact ⟨l, by rw [if_neg hid], l.playsOn_refl⟩

lemma Quiet.forget {s' : Stream} (h : Quiet id s s') {id' : ListenerId} (hid : id' ≠ id) :
    Quiet id s (s'.forget id') := by
  refine ⟨h.audio, h.capacity, h.destroyed, fun l hl hp => ?_⟩
  obtain ⟨l', hl', hrest⟩ := h.listener l hl hp
  exact ⟨l', (listener?_forget_of_ne s' hid.symm).trans hl', hrest⟩

/-- **Where nothing is appended and nothing interrupts, a listener plays on.** -/
lemma quiet_apply (h : s.Sound) {op : Operation} (hop : ¬ s.Interrupts id op)
    (hnone : s.appended op = []) : Quiet id s (op.apply s) := by
  cases op with
  | push c => exact quiet_push h hnone
  | updateVitals v => exact quiet_updateVitals h hop
  | setWindow seconds => exact quiet_adjust h rfl rfl rfl hop
  | adjust => exact quiet_adjust h rfl rfl rfl hop
  | reset => exact absurd trivial hop
  | destroy => exact absurd trivial hop
  | join options readSize =>
      refine ⟨⟨[], rfl, fun _ => rfl⟩, Nat.le_refl _, rfl, fun l hl _ => ⟨l, ?_, l.playsOn_refl⟩⟩
      simp only [listener?] at hl
      simp [Operation.apply, join, listener?, List.find?_append, hl]
  | serve id' a => exact quiet_act hop
  | drop id' => exact (quiet_act fun hh => hop hh.1).forget hop
  | reports =>
      refine quiet_map (fun l => by split <;> rfl) fun l _ => ?_
      split
      · exact ⟨rfl, rfl, rfl, List.suffix_refl _⟩
      · exact l.playsOn_refl
  | disconnectSlow maxBytes =>
      refine quiet_map (fun l => by split <;> rfl) fun l hl => ?_
      have hslow : isSlow maxBytes l = false := by
        by_contra hne
        refine hop (List.mem_map.mpr ⟨l, List.mem_filter.mpr ⟨?_, by simpa using hne⟩, ?_⟩)
        · exact List.mem_of_find?_eq_some hl
        · exact listener?_id hl
      rw [if_neg (by simp [hslow])]
      exact l.playsOn_refl

end Stream

/-! ## The invariant -/

namespace Followed

/-- The cut between what a listener has and what is still to come: the store and the timeline both
end with what is still to come. -/
structure Cut (audio seed : List Chunk) (offset : ℕ) (x : Followed)
    (front settled rest : List Chunk) : Prop where
  store : x.stream.store.chunks = settled ++ rest
  timeline : x.timeline = front ++ x.queued ++ rest
  /-- What was queued last is still in the store, right before the cut. -/
  last : x.queued ≠ [] → settled.getLast? = x.queued.getLast?
  /-- Once live audio was queued the listener is exactly where it should be. -/
  held : x.queued = seed ∨ rest.length = offset
  waiting : x.queued = [] → rest.length = offset
  since : audio.length < x.timeline.length →
    offset < x.stream.store.length ∧ rest.length ≤ offset ∧ x.queued ≠ []

/-- What keeps playback free of gaps. -/
structure Follows (id : ListenerId) (audio seed : List Chunk) (offset : ℕ) (x : Followed) :
    Prop where
  sound : x.stream.Sound
  alive : x.stream.destroyed = false
  listener : ∃ l, x.stream.listener? id = some l ∧ l.phase = .streaming ∧
    l.queue.closed = false ∧ l.seat = some ⟨offset, x.queued.getLast?.map Chunk.ts⟩
  ordered : Ascending x.timeline
  edge : x.timeline.getLast? = x.stream.store.newest?
  seed_first : seed <+: x.queued
  /-- The store is larger than the listener is behind. -/
  room : offset < x.stream.store.capacity
  reach : offset ≤ x.stream.store.length
  cut : ∃ front settled rest, Cut audio seed offset x front settled rest

variable {id : ListenerId} {audio seed : List Chunk} {offset : ℕ} {x : Followed}

lemma step_of_quiet {l : Listener} (hl : x.stream.listener? id = some l)
    (hp : l.phase = .streaming) {op : Stream.Operation} (hnone : x.stream.appended op = [])
    (hq : Stream.Quiet id x.stream (op.apply x.stream)) :
    x.step id op = { x with stream := op.apply x.stream } := by
  obtain ⟨l', hl', hon⟩ := hq.listener l hl hp
  have hshort : ((op.apply x.stream).waiting id).drop (x.stream.waiting id).length = [] := by
    simp only [Stream.waiting, hl, hl']
    exact List.drop_eq_nil_of_le hon.queue.length_le
  simp only [step, hnone, hshort, List.append_nil]

lemma getLast?_older {older cs : List Chunk} (h : cs = [] → older = []) :
    (older ++ cs).getLast? = cs.getLast? := by
  by_cases hcs : cs = []
  · simp [hcs, h hcs]
  · rw [List.getLast?_append_of_ne_nil _ hcs]

/-- **Where nothing is appended the invariant stays.** -/
lemma Follows.step_quiet (h : Follows id audio seed offset x) {op : Stream.Operation}
    (hop : ¬ x.stream.Interrupts id op) (hnone : x.stream.appended op = []) :
    Follows id audio seed offset (x.step id op) := by
  obtain ⟨l, hl, hp, hopen, hseat⟩ := h.listener
  have hq := Stream.quiet_apply h.sound hop hnone
  rw [step_of_quiet hl hp hnone hq]
  obtain ⟨l', hl', hon⟩ := hq.listener l hl hp
  obtain ⟨older, holder, hempty⟩ := hq.audio
  obtain ⟨front, settled, rest, hcut⟩ := h.cut
  have hlen : x.stream.store.length ≤ (op.apply x.stream).store.length := by
    simp only [Store.length, holder, List.length_append]
    omega
  refine
    { sound := h.sound.apply op
      alive := hq.destroyed.trans h.alive
      listener := ⟨l', hl', hon.phase.trans hp, hon.closed.trans hopen, hon.seat.trans hseat⟩
      ordered := h.ordered
      edge := ?_
      seed_first := h.seed_first
      room := Nat.lt_of_lt_of_le h.room hq.capacity
      reach := Nat.le_trans h.reach hlen
      cut := ⟨front, older ++ settled, rest, ?_⟩ }
  · rw [Store.newest?, holder, getLast?_older hempty]
    exact h.edge
  · refine
      { store := by rw [holder, hcut.store, List.append_assoc]
        timeline := hcut.timeline
        last := fun hne => ?_
        held := hcut.held
        waiting := hcut.waiting
        since := fun hlt => ?_ }
    · have hsettled : settled ≠ [] := by
        rintro rfl
        exact hne (List.getLast?_eq_none_iff.mp (hcut.last hne).symm)
      rw [List.getLast?_append_of_ne_nil _ hsettled]
      exact hcut.last hne
    · obtain ⟨hreach, hrest⟩ := hcut.since hlt
      exact ⟨Nat.lt_of_lt_of_le hreach hlen, hrest⟩

/-- There is room for what is still to come and one chunk more. -/
lemma Cut.room {front settled rest : List Chunk} (h : Cut audio seed offset x front settled rest)
    (hbound : x.stream.store.length ≤ x.stream.store.capacity)
    (hroom : offset < x.stream.store.capacity) :
    rest.length + 1 ≤ x.stream.store.capacity := by
  by_cases hq : x.queued = []
  · rw [h.waiting hq]
    exact hroom
  · have hsettled : settled ≠ [] := by
      rintro rfl
      exact hq (List.getLast?_eq_none_iff.mp (h.last hq).symm)
    have hpos := List.length_pos_iff.mpr hsettled
    simp only [Store.length, h.store, List.length_append] at hbound
    omega

/-- The store after a chunk was appended: what is still to come is all there. -/
lemma Cut.store_append {front settled rest : List Chunk}
    (h : Cut audio seed offset x front settled rest)
    (hroom : rest.length + 1 ≤ x.stream.store.capacity) {c : Chunk}
    (hp : x.stream.store.placement c.ts = .appended) :
    (x.stream.store.insert c).2.chunks =
      settled.rtake (x.stream.store.capacity - (rest.length + 1)) ++ (rest ++ [c]) := by
  have hlen : (rest ++ [c]).length = rest.length + 1 := by simp
  rw [Store.chunks_insert_of_appended hp, h.store, List.append_assoc,
    Store.rtake_append _ _ (by rw [hlen]; exact hroom), hlen]

/-- What the new chunk makes due, whether the listener has a cursor or not. -/
lemma Cut.due_append {front settled rest : List Chunk}
    (h : Cut audio seed offset x front settled rest) (hs : x.stream.Sound)
    (hroom : offset < x.stream.store.capacity) (hreach : offset ≤ x.stream.store.length) {c : Chunk}
    (hp : x.stream.store.placement c.ts = .appended) :
    Stream.due (x.stream.store.insert c).2 ⟨offset, x.queued.getLast?.map Chunk.ts⟩ =
      (rest ++ [c]).take ((rest ++ [c]).length - offset) := by
  have hstore := h.store_append (h.room hs.bounded hroom) hp
  cases hlast : x.queued.getLast? with
  | none =>
      have hrest := h.waiting (List.getLast?_eq_none_iff.mp hlast)
      exact Stream.due_of_no_cursor hstore (by simp [hrest])
  | some last =>
      have hne : x.queued ≠ [] := by
        intro hnil
        rw [hnil] at hlast
        cases hlast
      have hsettled : settled.getLast? = some last := (h.last hne).trans hlast
      have hnew := (Store.placement_eq_appended_iff hs.ascending).mp hp
      have hasc := hs.ascending
      rw [h.store] at hasc hnew
      obtain ⟨hasc, -, hlt⟩ := Chunk.ascending_append.mp hasc
      have hmem : last ∈ settled := List.mem_of_getLast? hsettled
      refine Stream.due_of_cursor hstore ?_ ?_ ?_
      · have hlen := Store.length_insert_of_appended hp
        omega
      · exact fun d hd => hasc.ts_le_getLast? (List.mem_of_mem_drop hd) hsettled
      · intro d hd
        rcases List.mem_append.mp hd with hd | hd
        · exact hlt last hmem d hd
        · rw [List.mem_singleton.mp hd]
          exact hnew last (List.mem_append_left _ hmem)

/-- The cut moves with an appended chunk, by what it makes due. -/
lemma Cut.append {front settled rest : List Chunk}
    (h : Cut audio seed offset x front settled rest) (hs : x.stream.Sound)
    (hroom : offset < x.stream.store.capacity) (hreach : offset ≤ x.stream.store.length) {c : Chunk}
    (hp : x.stream.store.placement c.ts = .appended) {s' : Stream}
    (hstore : s'.store = (x.stream.store.insert c).2) {y : Followed}
    (hy : y = ⟨s', x.timeline ++ [c],
      x.queued ++ (rest ++ [c]).take ((rest ++ [c]).length - offset)⟩) :
    ∃ settled', Cut audio seed offset y front settled'
      ((rest ++ [c]).drop ((rest ++ [c]).length - offset)) := by
  subst hy
  set due := (rest ++ [c]).take ((rest ++ [c]).length - offset) with hdue
  set left := (rest ++ [c]).drop ((rest ++ [c]).length - offset) with hleft
  have hsplit : due ++ left = rest ++ [c] := List.take_append_drop _ _
  have hlen : (rest ++ [c]).length = rest.length + 1 := by simp
  have hleftlen : left.length = rest.length + 1 - (rest.length + 1 - offset) := by
    rw [hleft, List.length_drop, hlen]
  have hfit := h.room hs.bounded hroom
  have hchunks := h.store_append hfit hp
  -- a listener that is at its offset is due something
  have hdue_ne : offset ≤ rest.length → due ≠ [] := by
    intro hle hnil
    have := congrArg List.length hnil
    rw [hdue, List.length_take, hlen, List.length_nil] at this
    omega
  have hqueued : x.queued = [] → due ≠ [] := fun hq => hdue_ne (Nat.le_of_eq (h.waiting hq).symm)
  have hnext : x.queued ++ due ≠ [] := by
    intro hnil
    obtain ⟨hq, hd⟩ := List.append_eq_nil_iff.mp hnil
    exact hqueued hq hd
  refine ⟨settled.rtake (x.stream.store.capacity - (rest.length + 1)) ++ due, ?_⟩
  refine
    { store := by rw [hstore, hchunks, List.append_assoc, hsplit]
      timeline := by simp only [h.timeline, List.append_assoc, hsplit]
      last := fun _ => ?_
      held := ?_
      waiting := fun hnil => absurd hnil hnext
      since := fun _ => ⟨?_, by omega, hnext⟩ }
  · by_cases hd : due = []
    · have hlt : rest.length < offset := by
        by_contra hle
        exact hdue_ne (Nat.le_of_not_lt hle) hd
      simp only [hd, List.append_nil] at hnext ⊢
      rw [Store.getLast?_rtake _ (by omega)]
      exact h.last hnext
    · rw [List.getLast?_append_of_ne_nil _ hd, List.getLast?_append_of_ne_nil _ hd]
  · by_cases hle : offset ≤ rest.length
    · exact Or.inr (by omega)
    · have hd : due = [] := by
        rw [hdue, hlen, Nat.sub_eq_zero_of_le (by omega), List.take_zero]
      rcases h.held with hseed | hrest
      · exact Or.inl (by simp only [hd, List.append_nil, hseed])
      · omega
  · simp only [hstore, Store.length_insert_of_appended hp]
    omega

/-- **An appended chunk keeps the invariant.** -/
lemma Follows.step_append (h : Follows id audio seed offset x) {c : Chunk}
    (hc : x.stream.appended (.push c) = [c]) :
    Follows id audio seed offset (x.step id (.push c)) := by
  obtain ⟨l, hl, hphase, hopen, hseat⟩ := h.listener
  obtain ⟨front, settled, rest, hcut⟩ := h.cut
  have hp : x.stream.store.placement c.ts = .appended := by
    by_contra hne
    simp [Stream.appended, hne] at hc
  have hpush : (x.stream.push c).2 = Stream.fanOut { x.stream with
      store := (x.stream.store.insert c).2, nowPlaying := x.stream.playing c } := by
    rcases Stream.push_cases x.stream c with ⟨hd, -⟩ | ⟨-, -, heq⟩ | ⟨-, hne, -⟩
    · rw [h.alive] at hd
      cases hd
    · exact heq
    · exact absurd hp hne
  have hstore : (x.stream.push c).2.store = (x.stream.store.insert c).2 := by rw [hpush]; rfl
  have hl' : (x.stream.push c).2.listener? id =
      some (Stream.deliverTo (x.stream.store.insert c).2 l) := by
    rw [hpush, Stream.fanOut, Stream.listener?_map _ (Listener.id_deliverTo _)]
    exact congrArg (Option.map _) hl
  have hdue := hcut.due_append h.sound h.room h.reach hp
  obtain ⟨hqueue, hopen', hphase', hseat'⟩ :=
    Stream.deliverTo_spec (x.stream.store.insert c).2 hseat hopen
  rw [hdue] at hqueue hseat'
  set due := (rest ++ [c]).take ((rest ++ [c]).length - offset) with hdue'
  have hstep : x.step id (.push c) =
      ⟨(x.stream.push c).2, x.timeline ++ [c], x.queued ++ due⟩ := by
    simp only [step, hc, Stream.Operation.apply, Stream.waiting, hl, hl', hqueue,
      List.drop_left]
  have hnew := (Store.placement_eq_appended_iff h.sound.ascending).mp hp
  obtain ⟨settled', hcut'⟩ := hcut.append h.sound h.room h.reach hp hstore hstep
  have hedge : (x.stream.push c).2.store.newest? = some c := by
    rw [Store.newest?, hstore, hcut.store_append (hcut.room h.sound.bounded h.room) hp,
      ← List.append_assoc, List.getLast?_concat]
  refine
    { sound := by rw [hstep]; exact h.sound.push c
      alive := by rw [hstep, hpush]; exact h.alive
      listener := ⟨_, by rw [hstep]; exact hl', hphase'.trans hphase, hopen', ?_⟩
      ordered := ?_
      edge := by rw [hstep, List.getLast?_concat, hedge]
      seed_first := by rw [hstep]; exact h.seed_first.trans (List.prefix_append _ _)
      room := by rw [hstep, hstore, Store.capacity_insert]; exact h.room
      reach := ?_
      cut := ⟨front, settled', _, hcut'⟩ }
  · rw [hseat', hstep, List.getLast?_append, Option.map_or]
  · rw [hstep]
    refine Chunk.ascending_append.mpr ⟨h.ordered, List.pairwise_singleton _ _, fun a ha b hb => ?_⟩
    rw [List.mem_singleton.mp hb]
    obtain ⟨last, hlast⟩ : ∃ last, x.timeline.getLast? = some last :=
      ⟨_, List.getLast?_eq_some_getLast (List.ne_nil_of_mem ha)⟩
    have hmem : last ∈ x.stream.store.chunks := List.mem_of_getLast? (h.edge.symm.trans hlast)
    exact Int64.lt_of_le_of_lt (h.ordered.ts_le_getLast? ha hlast) (hnew last hmem)
  · have hroom := h.room
    have hreach := h.reach
    rw [hstep, hstore, Store.length_insert_of_appended hp]
    omega

/-- **Every operation that does not interrupt keeps the invariant.** -/
lemma Follows.step (h : Follows id audio seed offset x) {op : Stream.Operation}
    (hop : ¬ x.stream.Interrupts id op) : Follows id audio seed offset (x.step id op) := by
  by_cases hnone : x.stream.appended op = []
  · exact h.step_quiet hop hnone
  · cases op with
    | push c =>
        refine h.step_append ?_
        simp only [Stream.appended] at hnone ⊢
        split at hnone
        · next hpos => rw [if_pos hpos]
        · exact absurd rfl hnone
    | _ => exact absurd rfl hnone

/-! ## The moment of joining -/

/-- A listener that joins is given its first audio and nothing else, and the invariant holds. -/
lemma follows_attach {s : Stream} (hs : s.Sound) (hd : s.destroyed = false)
    (hload : s.loading = false) {l : Listener} {offset : ℕ} (hl : s.listener? id = some l)
    (hnew : l.phase = .seeding) (hoffset : s.seatOffset l.options = .ok offset)
    (hstay : l.options.pumpAndFinish = false) :
    ((start s).step id (.serve id .pump)).queued = s.seed l.options offset ∧
      Follows id s.store.chunks (s.seed l.options offset) offset
        ((start s).step id (.serve id .pump)) := by
  obtain ⟨-, hopen⟩ := hs.listeners l (List.mem_of_find?_eq_some hl) hnew
  set seed := s.seed l.options offset with hseed
  set attached : Listener := { l.enqueue seed with
    phase := .streaming, seat := some ⟨offset, seed.getLast?.map Chunk.ts⟩ } with hattached
  have hpump : (s.pumpListener l).2 = attached := by
    simp only [Stream.pumpListener, hnew, if_true, Stream.attach_eq hd hload hoffset hstay,
      ← hseed, ← hattached]
  have hl' : (s.act id .pump).listener? id = some attached := by
    rw [Stream.listener?_act, if_pos rfl, hl]
    exact congrArg some hpump
  have hstore := s.store_act id .pump
  have hstep : (start s).step id (.serve id .pump) = ⟨s.act id .pump, s.store.chunks, seed⟩ := by
    have hqueue : attached.queue.chunks = l.queue.chunks ++ seed := Queue.chunks_enqueue hopen seed
    simp only [Followed.step, start, Stream.appended, Stream.Operation.apply, Stream.waiting, hl,
      hl', hqueue, List.append_nil, List.nil_append, List.drop_left]
  have hle := Stream.seatOffset_le hoffset
  have hbound := hs.bounded
  have hcap := hs.one_le_capacity
  rw [hstep]
  refine ⟨rfl, ?_⟩
  refine
    { sound := hs.act id .pump
      alive := (s.destroyed_act id .pump).trans hd
      listener := ⟨attached, hl', rfl, (Queue.closed_enqueue _ _).trans hopen, rfl⟩
      ordered := hs.ascending
      edge := by rw [hstore]; rfl
      seed_first := List.prefix_refl _
      room := by rw [hstore]; omega
      reach := by rw [hstore]; omega
      cut := ?_ }
  by_cases hnil : seed = []
  · -- nothing was given: the cut is at the offset
    have hparts := List.take_append_drop (s.store.length - offset) s.store.chunks
    refine ⟨s.store.chunks.take (s.store.length - offset),
      s.store.chunks.take (s.store.length - offset),
      s.store.chunks.drop (s.store.length - offset), ?_⟩
    have hlen : (s.store.chunks.drop (s.store.length - offset)).length = offset := by
      rw [List.length_drop, ← Store.length]
      omega
    exact
      { store := by rw [hstore]; exact hparts.symm
        timeline := by simp only [hnil, List.append_nil, hparts]
        last := fun hne => absurd hnil hne
        held := Or.inl rfl
        waiting := fun _ => hlen
        since := fun hlt => absurd hlt (Nat.lt_irrefl _) }
  · obtain ⟨front, rest, hparts⟩ := s.seed_infix l.options offset
    refine ⟨front, front ++ seed, rest, ?_⟩
    exact
      { store := by rw [hstore]; exact hparts.symm
        timeline := hparts.symm
        last := fun _ => List.getLast?_append_of_ne_nil _ hnil
        held := Or.inl rfl
        waiting := fun h => absurd h hnil
        since := fun hlt => absurd hlt (Nat.lt_irrefl _) }

/-! ## What follows -/

lemma Cut.newest {front settled rest : List Chunk} (h : Cut audio seed offset x front settled rest)
    (hs : x.stream.Sound) (ho : Ascending x.timeline) (hseed : seed <+: x.queued)
    (hlt : audio.length < x.timeline.length) :
    ∃ i held, x.stream.store.indexOfOffset? offset = some i ∧
      x.stream.store.chunks[i]? = some held ∧
      x.queued.getLast? = some (Chunk.later seed.getLast? held) := by
  obtain ⟨hreach, hrest, hne⟩ := h.since hlt
  obtain ⟨last, hlast⟩ : ∃ last, x.queued.getLast? = some last :=
    ⟨_, List.getLast?_eq_some_getLast hne⟩
  have hsettled : settled.getLast? = some last := (h.last hne).trans hlast
  have hlen : x.stream.store.length = settled.length + rest.length := by
    rw [Store.length, h.store, List.length_append]
  set i := x.stream.store.length - 1 - offset with hi
  have hiset : i < settled.length := by
    have hpos : 0 < settled.length := List.length_pos_iff.mpr (by rintro rfl; cases hsettled)
    omega
  have hget : x.stream.store.chunks[i]? = some settled[i] := by
    rw [h.store, List.getElem?_append_left hiset, List.getElem?_eq_getElem hiset]
  refine ⟨i, settled[i], if_pos hreach, hget, ?_⟩
  rw [hlast]
  have hasc : Ascending settled :=
    hs.ascending.sublist (by rw [h.store]; exact List.sublist_append_left _ _)
  have hqasc : Ascending x.queued := by
    refine ho.sublist ?_
    rw [h.timeline, List.append_assoc]
    exact (List.sublist_append_left _ _).trans (List.sublist_append_right _ _)
  have hmem : settled[i] ∈ settled := List.getElem_mem hiset
  congr 1
  rcases h.held with hq | hq
  · -- nothing but the first audio: it is at the offset or ahead of it
    rw [← hq, hlast]
    simp only [Chunk.later]
    split
    · rfl
    · next hnot =>
        have hle := hasc.ts_le_getLast? hmem hsettled
        exact hasc.eq_of_ts_eq (List.mem_of_getLast? hsettled) hmem
          (Int64.le_antisymm (Int64.not_lt.mp hnot) hle)
  · -- live audio was queued: the newest queued chunk is the one at the offset
    have hheld : settled[i] = last := by
      rw [List.getLast?_eq_getElem?, show settled.length - 1 = i by omega,
        List.getElem?_eq_getElem hiset] at hsettled
      exact Option.some.inj hsettled
    rw [hheld]
    simp only [Chunk.later]
    cases hseedlast : seed.getLast? with
    | none => rfl
    | some a =>
        have ha : a ∈ x.queued := hseed.subset (List.mem_of_getLast? hseedlast)
        exact (if_neg (Int64.not_lt.mpr (hqasc.ts_le_getLast? ha hlast))).symm

lemma Follows.leaves_no_gap (h : Follows id audio seed offset x) :
    GapFree id audio seed offset x := by
  obtain ⟨l, hl, -, -, hseat⟩ := h.listener
  obtain ⟨front, settled, rest, hcut⟩ := h.cut
  exact
    { seated := ⟨l, _, hl, hseat, rfl⟩
      ordered := h.ordered
      seed_first := h.seed_first
      stretch := ⟨front, rest, hcut.timeline, ⟨settled, hcut.store.symm⟩, hcut.waiting⟩
      newest := hcut.newest h.sound h.ordered h.seed_first }

end Followed

/-! ## Playback -/

/-- **Playback has no gaps.**  A listener that joins to stay, at an offset and while no preload is
running, is given its first audio, and from then on, through any operations that do not interrupt
it, what was queued for it is one stretch of the timeline: the audio that was there, followed by
what was appended.  Its first audio comes with a pump; a listener that is polled at once is pumped
first. -/
theorem Broadcast.Reachable.gapFree {C : Codec} {b : Broadcast} (hb : Reachable C b)
    (halive : b.stream.destroyed = false) (hidle : b.running = []) {id : ListenerId}
    {l : Listener} {offset : ℕ} (hl : b.stream.listener? id = some l) (hnew : l.phase = .seeding)
    (hoffset : b.stream.seatOffset l.options = .ok offset)
    (hstay : l.options.pumpAndFinish = false) (ops : List Stream.Operation)
    (hops : Never (Followed.step id) ((Followed.start b.stream).step id (.serve id .pump)) ops
      fun x op => x.stream.Interrupts id op) :
    ((Followed.start b.stream).step id (.serve id .pump)).queued =
        b.stream.seed l.options offset ∧
      (∀ waker, b.stream.act id (.poll waker) =
        (b.stream.act id .pump).act id (.poll waker)) ∧
      Throughout (Followed.step id) ((Followed.start b.stream).step id (.serve id .pump)) ops
        (Followed.GapFree id b.stream.store.chunks (b.stream.seed l.options offset) offset) := by
  have hload : b.stream.loading = false := by
    by_contra hmark
    exact hb.running_ne_nil (by simpa using hmark) hidle
  obtain ⟨hqueued, hfollows⟩ :=
    Followed.follows_attach hb.sound halive hload hl hnew hoffset hstay
  have hattach := Stream.attach_eq halive hload hoffset hstay
  refine ⟨hqueued, Stream.act_poll_of_attach hl hnew hattach, ?_⟩
  exact throughout_of_never _ hfollows (fun _ _ h hop => h.step hop)
    (fun _ h => h.leaves_no_gap) hops

namespace Broadcast

/-- A stream that holds as much as it can, and a listener that is about to join one chunk behind
live. -/
def full : Broadcast :=
  run .json (new "main" 3 65536)
    [.operate (.updateVitals { streamKey := "a", chunkDuration := 1 }),
      .operate (.push ⟨0, 1000, [0], none⟩), .operate (.push ⟨1000, 1000, [1], none⟩),
      .operate (.push ⟨2000, 1000, [2], none⟩),
      .operate (.join { offsetSeconds := 1, burstSeconds := 5 } 65536)]

/-- Two more chunks, each of which makes the oldest one leave, and history, for which there is no
room. -/
def fullOps : List Stream.Operation :=
  [.push ⟨3000, 1000, [3], none⟩, .push ⟨-1000, 1000, [9], none⟩, .serve 0 (.read 1),
    .push ⟨4000, 1000, [4], none⟩]

lemma listener?_full : (full.stream.listener? 0).isSome = true := by decide +kernel

theorem gapFree_full :
    ((Followed.start full.stream).step 0 (.serve 0 .pump)).queued =
        full.stream.seed ((full.stream.listener? 0).get listener?_full).options 1 ∧
      (∀ waker, full.stream.act 0 (.poll waker) =
        (full.stream.act 0 .pump).act 0 (.poll waker)) ∧
      Throughout (Followed.step 0) ((Followed.start full.stream).step 0 (.serve 0 .pump)) fullOps
        (Followed.GapFree 0 full.stream.store.chunks
          (full.stream.seed ((full.stream.listener? 0).get listener?_full).options 1) 1) := by
  refine Reachable.gapFree (reachable_run .json (.new "main" 3 65536) _) (by decide +kernel)
    (by decide +kernel) (Option.some_get listener?_full).symm (by decide +kernel)
    (by decide +kernel) (by decide +kernel) fullOps fun past op hpre => ?_
  have hmem : op ∈ fullOps := hpre.subset (by simp)
  simp only [fullOps, List.mem_cons, List.not_mem_nil, or_false] at hmem
  rcases hmem with rfl | rfl | rfl | rfl
  · exact id
  · exact id
  · rintro ⟨-, h⟩
    cases h
  · exact id

end Broadcast

end RewindRelay
