import RewindRelay.Proofs.Broadcast.Run
import RewindRelay.Proofs.Store.Window
import RewindRelay.Proofs.Stream.Seat
import RewindRelay.Dump.Document
/-!
# Listeners that can be served

A listener is held at an offset behind the newest chunk, and is given a chunk once there are so many
newer ones.  That can only happen while the store may hold more chunks than the offset says.  When a
listener is seated its offset is cut down to what is stored, so at first there is room; but how much
the store may hold can change afterwards, and nobody cuts the offsets down again.  A listener whose
offset is too large then stays connected and is given nothing any more.

* `Stream.offsets` — where the seated listeners are held.
* `Stream.Servable` — every offset is within the store's capacity, and so it is reached again.
* `Stream.deliverTo_of_capacity_le`, `Stream.mem_listeners_pushAll` — a listener whose offset is not
  is given nothing, however much is pushed.
* `Stream.Moves` — what a step does to the capacity and to where the listeners are held.
* `Broadcast.bound?`, `Broadcast.Strands` — an event sets a capacity that is too small for somebody.
* `Broadcast.servable_throughout_iff` — **all listeners can be served exactly until that happens.**
* `Broadcast.not_forall_servable` — a smaller window does it.
-/

namespace RewindRelay

/-! ## Offsets -/

/-- Where the listener is held, if it has a seat. -/
def Listener.offset? (l : Listener) : Option ℕ := l.seat.map Seat.offset

namespace Listener

variable {l : Listener} {offset : ℕ}

@[simp] lemma offset?_forgetCursor (l : Listener) : l.forgetCursor.offset? = l.offset? := by
  simp only [offset?, forgetCursor, Option.map_map]
  rfl

@[simp] lemma offset?_deliverTo (store : Store) (l : Listener) :
    (Stream.deliverTo store l).offset? = l.offset? := by
  unfold Stream.deliverTo
  split
  · rfl
  · next seat hseat =>
      split
      · rfl
      · simp only [offset?, hseat, Option.map_some]

lemma offset?_of_close (h : l.close.offset? = some offset) : l.offset? = some offset := by
  unfold close at h
  split at h
  · exact h
  · cases h

/-- A listener is seated inside the stored span, and then stays where it is. -/
lemma offset?_of_apply {s : Stream} {a : Stream.ListenerAction}
    (h : (a.apply s l).offset? = some offset) :
    l.offset? = some offset ∨ offset ≤ s.store.length - 1 := by
  have hattach : ∀ {seeded : ℕ} {l' : Listener}, s.attach l = .ok (seeded, l') →
      l'.offset? = some offset → l.offset? = some offset ∨ offset ≤ s.store.length - 1 := by
    intro seeded l' hattach hoffset
    obtain ⟨-, -, asked, hasked, -, rfl⟩ := Stream.attach_eq_ok_iff.mp hattach
    rw [offset?, Stream.seat_settle] at hoffset
    split at hoffset
    · exact Or.inl hoffset
    · cases hoffset
      exact Or.inr (Stream.seatOffset_le hasked)
  have hpump : (s.pumpListener l).2.offset? = some offset →
      l.offset? = some offset ∨ offset ≤ s.store.length - 1 := by
    intro hoffset
    unfold Stream.pumpListener at hoffset
    split at hoffset
    · split at hoffset
      · next heq => exact hattach heq hoffset
      · exact Or.inl hoffset
    · exact Or.inl hoffset
  cases a with
  | pump => exact hpump h
  | poll waker =>
      simp only [Stream.ListenerAction.apply, Stream.pollListener] at h
      split at h
      · exact Or.inl h
      · exact Or.inl h
      · split at h
        all_goals
          next heq =>
            rw [heq] at hpump
            exact hpump h
  | read size =>
      simp only [Stream.ListenerAction.apply, read] at h
      split at h <;> exact Or.inl h
  | enqueue cs => exact Or.inl h
  | takeInterval => exact Or.inl h
  | leave => exact Or.inl (offset?_of_close h)

end Listener

namespace Stream

open Chunk (Ascending)

/-- Where the seated listeners are held. -/
def offsets (s : Stream) : List ℕ := s.listeners.filterMap Listener.offset?

variable {s s' : Stream} {offset : ℕ}

lemma mem_offsets : offset ∈ s.offsets ↔ ∃ l ∈ s.listeners, l.offset? = some offset :=
  List.mem_filterMap

lemma offsets_eq_of_map {f : Listener → Listener} (hs' : s'.listeners = s.listeners.map f)
    (hf : ∀ l, (f l).offset? = l.offset?) : s'.offsets = s.offsets := by
  rw [offsets, hs', List.filterMap_map]
  exact List.filterMap_congr fun l _ => hf l

lemma offsets_reset (s : Stream) : s.reset.offsets = s.offsets :=
  offsets_eq_of_map rfl Listener.offset?_forgetCursor

lemma offsets_updateVitals (s : Stream) (v : Vitals) :
    (s.updateVitals v).2.offsets = s.offsets := by
  rcases updateVitals_cases s v with ⟨-, heq⟩ | ⟨-, -, heq⟩ | ⟨-, -, heq⟩ <;> rw [heq]
  · rfl
  · exact s.offsets_reset

/-! ## Within reach -/

/-- The stream after so many live chunks. -/
def pushAll (s : Stream) (fresh : List Chunk) : Stream := fresh.foldl (fun s c => (s.push c).2) s

/-- Every seated listener can be served. -/
structure Servable (s : Stream) : Prop where
  /-- The store may hold a chunk where the listener is held. -/
  within : ∀ offset ∈ s.offsets, offset < s.store.capacity
  /-- There is one as soon as so many chunks have been pushed. -/
  reached : s.destroyed = false → ∀ offset ∈ s.offsets, ∀ fresh : List Chunk,
    Ascending (s.store.chunks ++ fresh) → offset < fresh.length →
      ((s.pushAll fresh).store.indexOfOffset? offset).isSome = true

/-- What live chunks in order leave in the store. -/
lemma chunks_pushAll {all fresh : List Chunk} (alive : s.destroyed = false)
    (hstore : s.store.chunks = all.rtake s.store.capacity) (hasc : Ascending (all ++ fresh)) :
    (s.pushAll fresh).store.chunks = (all ++ fresh).rtake s.store.capacity := by
  induction fresh generalizing s all with
  | nil => rwa [List.append_nil]
  | cons c fresh ih =>
      rw [← List.singleton_append, ← List.append_assoc] at hasc ⊢
      obtain ⟨hplace, haudio⟩ := Store.insert_newer hstore (Chunk.ascending_append.mp hasc).1
      have hpush := push_of_appended alive hplace
      have hnext := ih (s := (s.push c).2) ((s.destroyed_push c).trans alive)
        (by rw [capacity_push, hpush]; exact haudio) hasc
      rwa [capacity_push] at hnext

/-- An offset that the store may hold is reached. -/
lemma servable_iff (h : s.Sound) :
    s.Servable ↔ ∀ offset ∈ s.offsets, offset < s.store.capacity := by
  refine ⟨Servable.within, fun hwithin => ⟨hwithin, fun alive offset hoffset fresh hasc hlen => ?_⟩⟩
  have hchunks := chunks_pushAll alive (Store.rtake_eq_self h.bounded).symm hasc
  have hroom := hwithin offset hoffset
  have hlength : offset < (s.pushAll fresh).store.length := by
    simp only [Store.length, hchunks, List.rtake, List.length_drop, List.length_append]
    omega
  rw [Store.indexOfOffset?, if_pos hlength, Option.isSome_some]

/-- A listener whose offset the store may not hold is given nothing. -/
lemma deliverTo_of_capacity_le (h : s.Sound) {l : Listener} {seat : Seat}
    (hl : l.seat = some seat) (hle : s.store.capacity ≤ seat.offset) :
    deliverTo s.store l = l := by
  have hfar : ¬ seat.offset < s.store.length := by
    have hbounded := h.bounded
    omega
  have hnone : due s.store seat = [] := by
    simp only [due, Store.indexOfOffset?, if_neg hfar]
  simp only [deliverTo, hl, hnone, List.getLast?_nil]

/-- Nor is it by any number of pushes: it stays as it is. -/
lemma mem_listeners_pushAll (h : s.Sound) {l : Listener} {seat : Seat} (hmem : l ∈ s.listeners)
    (hl : l.seat = some seat) (hle : s.store.capacity ≤ seat.offset) (fresh : List Chunk) :
    l ∈ (s.pushAll fresh).listeners := by
  induction fresh generalizing s with
  | nil => exact hmem
  | cons c fresh ih =>
      refine ih (s := (s.push c).2) (h.push c) ?_ (by rwa [capacity_push])
      rcases push_cases s c with ⟨-, heq⟩ | ⟨-, -, heq⟩ | ⟨-, -, heq⟩ <;> rw [heq]
      · exact hmem
      · exact List.mem_map.mpr
          ⟨l, hmem, deliverTo_of_capacity_le (h.insert c) hl (by simpa using hle)⟩
      · exact hmem

/-! ## What changes the capacity -/

/-- The capacity that reported vitals set. -/
def vitalsBound? (s : Stream) (v : Vitals) : Option ℕ :=
  if v.isUsable then some (lengthBound s.windowSeconds (some v)) else none

/-- The capacity that a frame of a dump sets: the header brings vitals. -/
def frameBound? (s : Stream) : Frame → Option ℕ
  | .header h => s.vitalsBound? h.vitals
  | .chunk _ => none

def preloadBound? (C : Codec) (s : Stream) (p : Preload) : PreloadAction → Option ℕ
  | .advance =>
    match (p.loader.nextFrame C).1 with
    | .ok (some f) => s.frameBound? f
    | _ => none
  | _ => none

/-- What an operation does to the capacity and the offsets. -/
structure Moves (s s' : Stream) (bound? : Option ℕ) : Prop where
  capacity : s'.store.capacity = bound?.getD s.store.capacity
  /-- Whoever is seated was so before, or is seated inside the stored span. -/
  offsets : ∀ offset ∈ s'.offsets, offset ∈ s.offsets ∨ offset ≤ s.store.length - 1
  /-- Nobody comes or goes when the capacity is set. -/
  stays : bound?.isSome = true → s'.offsets = s.offsets

lemma Moves.of_subset (hcapacity : s'.store.capacity = s.store.capacity)
    (hoffsets : s'.offsets ⊆ s.offsets) : Moves s s' none where
  capacity := hcapacity
  offsets := fun _ hmem => Or.inl (hoffsets hmem)
  stays := fun h => by cases h

lemma Moves.of_eq {bound? : Option ℕ} (hcapacity : s'.store.capacity = bound?.getD s.store.capacity)
    (hoffsets : s'.offsets = s.offsets) : Moves s s' bound? where
  capacity := hcapacity
  offsets := fun _ hmem => Or.inl (hoffsets ▸ hmem)
  stays := fun _ => hoffsets

lemma moves_updateVitals (s : Stream) (v : Vitals) :
    Moves s (s.updateVitals v).2 (s.vitalsBound? v) := by
  refine .of_eq ?_ (s.offsets_updateVitals v)
  rcases updateVitals_cases s v with ⟨hu, heq⟩ | ⟨hu, -, heq⟩ | ⟨hu, -, heq⟩ <;>
    simp only [heq, hu, vitalsBound?] <;> rfl

lemma moves_push (s : Stream) (c : Chunk) : Moves s (s.push c).2 none := by
  refine .of_eq (s.capacity_push c) ?_
  rcases push_cases s c with ⟨-, heq⟩ | ⟨-, -, heq⟩ | ⟨-, -, heq⟩ <;> rw [heq]
  · exact offsets_eq_of_map rfl (Listener.offset?_deliverTo _)
  · rfl

/-- What one listener does changes nobody else's seat. -/
lemma moves_act (s : Stream) (id : ListenerId) (a : ListenerAction) :
    Moves s (s.act id a) none := by
  unfold act serve
  cases hf : s.listener? id with
  | none => exact .of_eq rfl rfl
  | some l =>
      have hl : l ∈ s.listeners := List.mem_of_find?_eq_some hf
      refine ⟨rfl, fun offset hmem => ?_, fun h => by cases h⟩
      obtain ⟨l', hl', hoffset⟩ := mem_offsets.mp hmem
      obtain ⟨l₀, hl₀, rfl⟩ := List.mem_map.mp hl'
      split_ifs at hoffset
      · exact (Listener.offset?_of_apply hoffset).imp_left fun h => mem_offsets.mpr ⟨l, hl, h⟩
      · exact Or.inl (mem_offsets.mpr ⟨l₀, hl₀, hoffset⟩)

lemma offsets_forget_subset (s : Stream) (id : ListenerId) : (s.forget id).offsets ⊆ s.offsets :=
  (List.filter_sublist.filterMap _).subset

/-- A listener without a seat is not held anywhere. -/
lemma offsets_unseat_subset (s : Stream) (bad : Listener → Bool) :
    (s.listeners.map fun l => if bad l then l.unseat else l).filterMap Listener.offset? ⊆
      s.offsets := by
  intro offset hmem
  obtain ⟨l', hl', hoffset⟩ := List.mem_filterMap.mp hmem
  obtain ⟨l, hl, rfl⟩ := List.mem_map.mp hl'
  split at hoffset
  · cases hoffset
  · exact mem_offsets.mpr ⟨l, hl, hoffset⟩

lemma moves_destroy (s : Stream) : Moves s s.destroy none := by
  unfold destroy
  split
  · exact .of_eq rfl rfl
  · exact .of_subset rfl (s.offsets_unseat_subset Listener.isSeated)

lemma moves_join (s : Stream) (options : ListenOptions) (readSize : ℕ) :
    Moves s (s.join options readSize).2 none := by
  refine .of_eq rfl ?_
  simp only [offsets, join, List.filterMap_append]
  exact List.append_nil _

lemma moves_reports (s : Stream) : Moves s s.reports.2 none :=
  .of_eq rfl (offsets_eq_of_map rfl fun l => by split <;> rfl)

lemma moves_applyFrame (s : Stream) (summary : Summary) (f : Frame) :
    Moves s (s.applyFrame summary f).2 (s.frameBound? f) := by
  cases f with
  | header h =>
      have hmoves := s.moves_updateVitals h.vitals
      simp only [applyFrame]
      split
      all_goals
        next heq =>
          rw [heq] at hmoves
          exact hmoves
  | chunk c =>
      simp only [applyFrame]
      split
      · exact .of_eq rfl rfl
      · exact .of_eq (Store.capacity_insert s.store c) rfl

lemma Moves.abandon {bound? : Option ℕ} (h : Moves s s' bound?) : Moves s s'.abandon bound? :=
  ⟨h.capacity, h.offsets, h.stays⟩

lemma moves_stepPreload (C : Codec) (s : Stream) (p : Preload) (a : PreloadAction) :
    Moves s (s.stepPreload C p a).2 (s.preloadBound? C p a) := by
  have hsame : Moves s s none := .of_eq rfl rfl
  cases a with
  | cancel => exact hsame.abandon
  | transport event =>
      have hspec := stepPreload_spec C s p (.transport event)
      generalize s.stepPreload C p (.transport event) = result at hspec
      cases hspec with
      | waits loader same => exact hsame
      | ends => exact hsame.abandon
  | advance =>
      rcases hnext : p.loader.nextFrame C with ⟨_ | _ | f, loader⟩ <;>
        simp only [stepPreload, advance, preloadBound?, hnext]
      · exact hsame.abandon
      · exact hsame
      · have hmoves := s.moves_applyFrame p.summary f
        rcases happly : s.applyFrame p.summary f with ⟨_ | summary, s'⟩ <;> rw [happly] at hmoves
        · exact hmoves.abandon
        · exact hmoves

end Stream

namespace Broadcast

variable {C : Codec} {b : Broadcast}

/-- The capacity that an event sets. -/
def bound? (C : Codec) (b : Broadcast) : Event → Option ℕ
  | .operate (.updateVitals v) => b.stream.vitalsBound? v
  | .operate (.setWindow seconds) => some (Stream.lengthBound seconds b.stream.vitals)
  | .operate .adjust => some (Stream.lengthBound b.stream.windowSeconds b.stream.vitals)
  | .preload id a => (b.running.lookup id).bind fun p => b.stream.preloadBound? C p a
  | _ => none

/-- An event sets a capacity that does not go beyond the offset of a seated listener. -/
def Strands (C : Codec) (b : Broadcast) (event : Event) : Prop :=
  ∃ bound, b.bound? C event = some bound ∧ ∃ offset ∈ b.stream.offsets, bound ≤ offset

lemma moves_apply (C : Codec) (b : Broadcast) (op : Stream.Operation) :
    Stream.Moves b.stream (op.apply b.stream) (b.bound? C (.operate op)) := by
  cases op with
  | push c => exact b.stream.moves_push c
  | updateVitals v => exact b.stream.moves_updateVitals v
  | setWindow seconds => exact .of_eq rfl rfl
  | adjust => exact .of_eq rfl rfl
  | reset => exact .of_eq rfl b.stream.offsets_reset
  | destroy => exact b.stream.moves_destroy
  | join options readSize => exact b.stream.moves_join options readSize
  | serve id a => exact b.stream.moves_act id a
  | drop id =>
      have hact := b.stream.moves_act id .leave
      exact ⟨hact.capacity, fun offset hmem => hact.offsets offset
        (Stream.offsets_forget_subset _ id hmem), fun h => by cases h⟩
  | reports => exact b.stream.moves_reports
  | disconnectSlow maxBytes =>
      exact .of_subset rfl (b.stream.offsets_unseat_subset (Stream.isSlow maxBytes))

lemma moves_step (C : Codec) (b : Broadcast) (event : Event) :
    Stream.Moves b.stream (b.step C event).stream (b.bound? C event) := by
  cases event with
  | operate op => exact moves_apply C b op
  | start => exact .of_eq rfl rfl
  | preload id a =>
      cases hl : b.running.lookup id with
      | none =>
          simp only [step, bound?, hl, Option.bind_none]
          exact .of_eq rfl rfl
      | some p =>
          simp only [step, bound?, hl, Option.bind_some]
          exact b.stream.moves_stepPreload C p a

/-- **One event.**  As long as the store may hold a chunk at every offset, it is the events that
strand somebody after which it may not. -/
lemma within_step_iff (hs : b.stream.Sound)
    (h : ∀ offset ∈ b.stream.offsets, offset < b.stream.store.capacity) (event : Event) :
    (∀ offset ∈ (b.step C event).stream.offsets,
      offset < (b.step C event).stream.store.capacity) ↔ ¬ Strands C b event := by
  have hmoves := moves_step C b event
  unfold Strands
  cases hbound : b.bound? C event with
  | none =>
      rw [hbound] at hmoves
      refine iff_of_true (fun offset hmem => ?_) (by simp)
      rw [hmoves.capacity, Option.getD_none]
      rcases hmoves.offsets offset hmem with hold | hseated
      · exact h offset hold
      · have hbounded := hs.bounded
        have hone := hs.one_le_capacity
        omega
  | some bound =>
      rw [hbound] at hmoves
      rw [hmoves.capacity, Option.getD_some, hmoves.stays rfl]
      simp only [Option.some.injEq, exists_eq_left', not_exists, not_and, not_le]

/-- **Who can be served, exactly.**  Throughout a run every seated listener can be served if and
only if no event of the run sets a capacity that does not go beyond somebody's offset. -/
theorem servable_throughout_iff (C : Codec) (name : String) (windowSeconds : Float) (readSize : ℕ)
    (events : List Event) :
    Throughout (step C) (new name windowSeconds readSize) events (fun b => b.stream.Servable) ↔
      Never (step C) (new name windowSeconds readSize) events (Strands C) := by
  have hsound := Stream.sound_new name windowSeconds readSize
  have hnew : (new name windowSeconds readSize).stream.Servable :=
    (Stream.servable_iff hsound).mpr fun _ hmem => by cases hmem
  refine throughout_iff_never (fun b => b.stream.Sound) hsound
    (fun _ event hs => sound_step hs C event) hnew fun b event hs hservable => ?_
  rw [Stream.servable_iff (sound_step hs C event)]
  exact within_step_iff hs hservable.within event

/-- Ten chunks of a second each; a listener asks for the oldest one; then the window shrinks to
five seconds. -/
def shrink : List Event :=
  .operate (.updateVitals { streamKey := "a", chunkDuration := 1 }) ::
    ((List.range 10).map fun n =>
      .operate (.push { ts := .ofNat (1000 * n), duration := 1000, data := [0] })) ++
    [.operate (.join (.rewound 9) 65536), .operate (.serve 0 .pump), .operate (.setWindow 5)]

/-- **Not every listener can always be served.**  Five chunks is all that the store may hold then,
and the listener stays at offset nine. -/
theorem not_forall_servable :
    ¬ ∀ events, Throughout (step .json) (new "main" 300 65536) events
      (fun b => b.stream.Servable) := by
  intro h
  have hservable := h shrink shrink (List.prefix_refl _)
  have hoffsets : (shrink.foldl (step .json) (new "main" 300 65536)).stream.offsets = [9] := by
    decide +kernel
  have hcapacity :
      (shrink.foldl (step .json) (new "main" 300 65536)).stream.store.capacity = 5 := by
    decide +kernel
  have hwithin := hservable.within 9 (by rw [hoffsets]; exact List.mem_singleton_self 9)
  omega

end Broadcast

end RewindRelay
