import RewindRelay.Proofs.Dump.Loader
import RewindRelay.Proofs.Listener.Basic
import RewindRelay.Proofs.Store.Order
/-!
# What holds of every stream

The facts that no operation of a stream ever breaks: the store is in order and within its
capacity, the capacity is the one that the window and the vitals ask for, the vitals are usable,
and a listener that is not seeded yet has no seat.

* `Stream.Sound` — the invariant.
* `Stream.Sound.apply`, `Stream.Sound.stepPreload` — **every operation and every step of a preload
  keeps it.**
* `Stream.PreloadStep`, `Stream.stepPreload_spec` — all that a step of a preload can do.
* `Broadcast.Reachable.sound` — so it holds of every stream in use.
-/

namespace RewindRelay

def Summary.count (summary : Summary) (outcome : InsertOutcome) : Summary :=
  if outcome.isStored then { summary with loaded := summary.loaded + 1 }
  else { summary with skipped := summary.skipped + 1 }

lemma Summary.header_count (summary : Summary) (outcome : InsertOutcome) :
    (summary.count outcome).header = summary.header := by
  unfold Summary.count
  split <;> rfl

namespace Stream

open Chunk (Ascending)

/-- What every stream in use satisfies. -/
structure Sound (s : Stream) : Prop where
  ascending : Ascending s.store.chunks
  bounded : s.store.length ≤ s.store.capacity
  /-- The capacity follows from the window and the vitals. -/
  capacity : s.store.capacity = lengthBound s.windowSeconds s.vitals
  usable : ∀ v, s.vitals = some v → v.isUsable = true
  listeners : ∀ l ∈ s.listeners, l.Sound

lemma one_le_lengthBound (window : Float) (vitals : Option Vitals) :
    1 ≤ lengthBound window vitals :=
  le_max_left _ _

lemma Sound.one_le_capacity {s : Stream} (h : s.Sound) : 1 ≤ s.store.capacity := by
  rw [h.capacity]
  exact one_le_lengthBound _ _

/-! ## Operations on the audio -/

/-- Adjusting brings any stream in order whose other parts are sound. -/
lemma sound_adjust {s : Stream} (ha : Ascending s.store.chunks)
    (hu : ∀ v, s.vitals = some v → v.isUsable = true) (hl : ∀ l ∈ s.listeners, l.Sound) :
    s.adjust.Sound where
  ascending := Ascending.rtake ha _
  bounded := Store.length_rtake_le _ _
  capacity := rfl
  usable := hu
  listeners := hl

lemma sound_new (name : String) (windowSeconds : Float) (readSize : ℕ) :
    (new name windowSeconds readSize).Sound :=
  sound_adjust Chunk.ascending_nil (by simp) (by simp)

variable {s : Stream}

/-- New audio and new listeners in place of the old ones. -/
lemma Sound.with (h : s.Sound) {store : Store} {ls : List Listener} (ha : Ascending store.chunks)
    (hb : store.length ≤ store.capacity) (hc : store.capacity = s.store.capacity)
    (hl : ∀ l ∈ ls, l.Sound) : Sound { s with store, listeners := ls } where
  ascending := ha
  bounded := hb
  capacity := hc.trans h.capacity
  usable := h.usable
  listeners := hl

/-- Operations that change each listener on its own. -/
lemma Sound.mapListeners (h : s.Sound) {f : Listener → Listener}
    (hf : ∀ l, l.Sound → (f l).Sound) : Sound { s with listeners := s.listeners.map f } := by
  refine h.with h.ascending h.bounded rfl fun l hl => ?_
  obtain ⟨l', hl', rfl⟩ := List.mem_map.mp hl
  exact hf l' (h.listeners l' hl')

lemma Sound.clear (h : s.Sound) : Sound { s with store := s.store.clear } :=
  h.with Chunk.ascending_nil (Nat.zero_le _) rfl h.listeners

lemma Sound.insert (h : s.Sound) (c : Chunk) : Sound { s with store := (s.store.insert c).2 } :=
  h.with (Store.ascending_insert h.ascending c)
    (by rw [Store.capacity_insert]; exact Store.length_insert_le h.bounded c)
    (Store.capacity_insert _ _) h.listeners

lemma Sound.nowPlaying (h : s.Sound) (m : Option Metadata) : Sound { s with nowPlaying := m } :=
  ⟨h.ascending, h.bounded, h.capacity, h.usable, h.listeners⟩

lemma Sound.loading (h : s.Sound) (b : Bool) : Sound { s with loading := b } :=
  ⟨h.ascending, h.bounded, h.capacity, h.usable, h.listeners⟩

lemma Sound.fanOut (h : s.Sound) : s.fanOut.Sound :=
  h.mapListeners fun _ hl => hl.deliverTo _

lemma Sound.reset (h : s.Sound) : s.reset.Sound :=
  h.clear.mapListeners fun _ hl => hl.forgetCursor

lemma push_cases (s : Stream) (c : Chunk) :
    s.destroyed = true ∧ (s.push c).2 = s ∨
    s.destroyed = false ∧ s.store.placement c.ts = .appended ∧
      (s.push c).2 = fanOut { s with store := (s.store.insert c).2, nowPlaying := s.playing c } ∨
    s.destroyed = false ∧ s.store.placement c.ts ≠ .appended ∧
      (s.push c).2 = { s with store := (s.store.insert c).2 } := by
  cases hd : s.destroyed with
  | true => exact Or.inl ⟨rfl, by simp [push, hd]⟩
  | false =>
      refine Or.inr ?_
      cases hp : s.store.placement c.ts <;> simp [push, hd, onStore_eq, hp, playing]

/-- A chunk that becomes the newest is stored and delivered. -/
lemma push_of_appended {c : Chunk} (alive : s.destroyed = false)
    (hplace : s.store.placement c.ts = .appended) :
    s.push c = (.ok .appended,
      fanOut { s with store := (s.store.insert c).2, nowPlaying := s.playing c }) := by
  simp [push, alive, onStore_eq, hplace, playing]

lemma destroyed_push (s : Stream) (c : Chunk) : (s.push c).2.destroyed = s.destroyed := by
  rcases push_cases s c with ⟨-, heq⟩ | ⟨-, -, heq⟩ | ⟨-, -, heq⟩ <;> rw [heq]
  rfl

lemma capacity_push (s : Stream) (c : Chunk) :
    (s.push c).2.store.capacity = s.store.capacity := by
  rcases push_cases s c with ⟨-, heq⟩ | ⟨-, -, heq⟩ | ⟨-, -, heq⟩ <;> rw [heq]
  · exact Store.capacity_insert _ _
  · exact Store.capacity_insert _ _

lemma Sound.push (h : s.Sound) (c : Chunk) : (s.push c).2.Sound := by
  rcases push_cases s c with ⟨-, heq⟩ | ⟨-, -, heq⟩ | ⟨-, -, heq⟩ <;> rw [heq]
  · exact h
  · exact ((h.insert c).nowPlaying _).fanOut
  · exact h.insert c

/-- What reported vitals can do: nothing when they are not usable; else they are taken over, and
audio under another key goes first. -/
lemma updateVitals_cases (s : Stream) (v : Vitals) :
    v.isUsable = false ∧ (s.updateVitals v).2 = s ∨
    v.isUsable = true ∧ (∀ v', s.vitals = some v' → v'.streamKey = v.streamKey) ∧
      (s.updateVitals v).2 = adjust { s with vitals := some v } ∨
    v.isUsable = true ∧ (∃ v', s.vitals = some v' ∧ v'.streamKey ≠ v.streamKey) ∧
      (s.updateVitals v).2 = adjust { s.reset with vitals := some v } := by
  cases hu : v.isUsable with
  | false => exact Or.inl ⟨rfl, by simp [updateVitals, hu]⟩
  | true =>
      refine Or.inr ?_
      cases hv : s.vitals with
      | none => exact Or.inl ⟨rfl, by simp, by simp [updateVitals, hu, vitalsChange, hv]⟩
      | some v' =>
          by_cases hk : v'.streamKey = v.streamKey
          · exact Or.inl ⟨rfl, by simp [hk], by simp [updateVitals, hu, vitalsChange, hv, hk]⟩
          · exact Or.inr ⟨rfl, ⟨v', rfl, hk⟩, by simp [updateVitals, hu, vitalsChange, hv, hk]⟩

/-- Vitals concern the audio, and what the listeners know of it. -/
lemma updateVitals_frame (s : Stream) (v : Vitals) :
    (s.updateVitals v).2 =
      { s with
        store := (s.updateVitals v).2.store
        vitals := (s.updateVitals v).2.vitals
        listeners := (s.updateVitals v).2.listeners } := by
  rcases updateVitals_cases s v with ⟨-, heq⟩ | ⟨-, -, heq⟩ | ⟨-, -, heq⟩ <;> rw [heq] <;> rfl

lemma destroyed_updateVitals (s : Stream) (v : Vitals) :
    (s.updateVitals v).2.destroyed = s.destroyed := by
  rw [updateVitals_frame]

lemma Sound.updateVitals (h : s.Sound) (v : Vitals) : (s.updateVitals v).2.Sound := by
  rcases updateVitals_cases s v with ⟨-, heq⟩ | ⟨hu, -, heq⟩ | ⟨hu, -, heq⟩ <;> rw [heq]
  · exact h
  · exact sound_adjust h.ascending (by simpa using hu) h.listeners
  · exact sound_adjust h.reset.ascending (by simpa using hu) h.reset.listeners

lemma Sound.destroy (h : s.Sound) : s.destroy.Sound := by
  unfold Stream.destroy
  split
  · exact h
  · refine ⟨Chunk.ascending_nil, Nat.zero_le _, h.capacity, h.usable, fun l hl => ?_⟩
    obtain ⟨l', hl', rfl⟩ := List.mem_map.mp hl
    split
    · next hs => exact (h.listeners l' hl').unseat hs
    · exact h.listeners l' hl'

/-! ## Operations on the listeners -/

/-- What a listener does concerns the listeners only. -/
lemma act_frame (s : Stream) (id : ListenerId) (a : ListenerAction) :
    s.act id a = { s with listeners := (s.act id a).listeners } := by
  unfold Stream.act serve
  cases s.listener? id <;> rfl

lemma store_act (s : Stream) (id : ListenerId) (a : ListenerAction) :
    (s.act id a).store = s.store := by
  rw [act_frame]

lemma destroyed_act (s : Stream) (id : ListenerId) (a : ListenerAction) :
    (s.act id a).destroyed = s.destroyed := by
  rw [act_frame]

lemma Sound.act (h : s.Sound) (id : ListenerId) (a : ListenerAction) : (s.act id a).Sound := by
  unfold Stream.act serve
  cases hf : s.listener? id with
  | none => exact h
  | some l =>
      have hl := h.listeners l (List.mem_of_find?_eq_some hf)
      refine h.with h.ascending h.bounded rfl fun l' hl' => ?_
      obtain ⟨l₀, hl₀, rfl⟩ := List.mem_map.mp hl'
      split
      · exact hl.apply s a
      · exact h.listeners l₀ hl₀

lemma Sound.join (h : s.Sound) (options : ListenOptions) (readSize : ℕ) :
    (s.join options readSize).2.Sound := by
  refine ⟨h.ascending, h.bounded, h.capacity, h.usable, fun l hl => ?_⟩
  rcases List.mem_append.mp hl with hl | hl
  · exact h.listeners l hl
  · rw [List.mem_singleton.mp hl]
    exact fun _ => ⟨rfl, rfl⟩

lemma Sound.forget (h : s.Sound) (id : ListenerId) : (s.forget id).Sound :=
  h.with h.ascending h.bounded rfl fun l hl => h.listeners l (List.mem_of_mem_filter hl)

/-- **Every operation keeps a stream sound.** -/
theorem Sound.apply (h : s.Sound) (op : Operation) : (op.apply s).Sound := by
  cases op with
  | push c => exact h.push c
  | updateVitals v => exact h.updateVitals v
  | setWindow seconds => exact sound_adjust h.ascending h.usable h.listeners
  | adjust => exact sound_adjust h.ascending h.usable h.listeners
  | reset => exact h.reset
  | destroy => exact h.destroy
  | join options readSize => exact h.join options readSize
  | serve id a => exact h.act id a
  | drop id => exact (h.act id .leave).forget id
  | reports =>
      refine h.mapListeners fun l hl => ?_
      split
      · exact hl.takeInterval
      · exact hl
  | disconnectSlow maxBytes =>
      refine h.mapListeners fun l hl => ?_
      split
      · next hs => exact hl.unseat (by simp only [isSlow, Bool.and_eq_true] at hs; exact hs.1)
      · exact hl

/-! ## Preloads -/

/-- All that a step of a preload can do. -/
inductive PreloadStep (C : Codec) (s : Stream) (p : Preload) :
    PreloadAction → Option Preload × Stream → Prop
  /-- Nothing, or it takes in bytes. -/
  | waits {a : PreloadAction} (loader : Loader) (same : loader.phase = p.loader.phase) :
    PreloadStep C s p a (some { p with loader }, s)
  /-- It applies a header. -/
  | header (h : Header) (loader : Loader)
    (decoded : p.loader.nextFrame C = (.ok (some (.header h)), loader))
    (usable : h.vitals.isUsable = true) :
    PreloadStep C s p .advance
      (some { loader, summary := { p.summary with header := some h } }, (s.updateVitals h.vitals).2)
  /-- It applies a chunk. -/
  | chunk (c : Chunk) (loader : Loader) (summary : Summary)
    (decoded : p.loader.nextFrame C = (.ok (some (.chunk c)), loader))
    (alive : s.destroyed = false) (same : summary.header = p.summary.header) :
    PreloadStep C s p .advance
      (some { loader, summary }, { s with store := (s.store.insert c).2 })
  /-- It is over, in whatever way. -/
  | ends {a : PreloadAction} : PreloadStep C s p a (none, s.abandon)

lemma updateVitals_of_usable {v : Vitals} (h : v.isUsable = true) :
    ∃ change, s.updateVitals v = (.ok change, (s.updateVitals v).2) := by
  simp [Stream.updateVitals, h]

/-- A chunk of a dump is always taken, stored or not. -/
lemma applyFrame_chunk (h : s.destroyed = false) (summary : Summary) (c : Chunk) :
    s.applyFrame summary (.chunk c) = (.ok (summary.count (s.store.placement c.ts)),
      { s with store := (s.store.insert c).2 }) := by
  rw [← Store.insert_fst]
  simp only [applyFrame]
  rw [if_neg (by simp [h])]
  rfl

lemma applyFrame_header {h : Header} (hu : h.vitals.isUsable = true) (summary : Summary) :
    s.applyFrame summary (.header h) =
      (.ok { summary with header := some h }, (s.updateVitals h.vitals).2) := by
  obtain ⟨change, hchange⟩ := updateVitals_of_usable (s := s) hu
  simp only [applyFrame]
  rw [hchange]

lemma stepPreload_of_applied {C : Codec} {p : Preload} {f : Frame} {loader : Loader}
    {summary : Summary} {s' : Stream} (hn : p.loader.nextFrame C = (.ok (some f), loader))
    (ha : s.applyFrame p.summary f = (.ok summary, s')) :
    s.stepPreload C p .advance = (some { loader, summary }, s') := by
  simp only [stepPreload, advance, hn, ha, Progress.preload?]

lemma stepPreload_of_refused {C : Codec} {p : Preload} {f : Frame} {loader : Loader}
    {e : StreamError} {s' : Stream} (hn : p.loader.nextFrame C = (.ok (some f), loader))
    (ha : s.applyFrame p.summary f = (.error e, s')) :
    s.stepPreload C p .advance = (none, s'.abandon) := by
  simp only [stepPreload, advance, hn, ha, Progress.preload?, endPreload]

lemma stepPreload_advance_spec (C : Codec) (s : Stream) (p : Preload) :
    PreloadStep C s p .advance (s.stepPreload C p .advance) := by
  match hn : p.loader.nextFrame C with
  | (.ok none, loader) =>
      simp only [stepPreload, advance, hn, Progress.preload?]
      exact .waits loader (by rw [Loader.eq_of_nextFrame_none hn])
  | (.error e, _) =>
      simp only [stepPreload, advance, hn, Progress.preload?, endPreload]
      exact .ends
  | (.ok (some (.header h)), loader) =>
      cases hu : h.vitals.isUsable with
      | false =>
          have ha : s.applyFrame p.summary (.header h) =
              (.error (.invalidVitals h.vitals.streamKey h.vitals.chunkDuration), s) := by
            simp [applyFrame, Stream.updateVitals, hu]
          rw [stepPreload_of_refused hn ha]
          exact .ends
      | true =>
          rw [stepPreload_of_applied hn (applyFrame_header hu p.summary)]
          exact .header h loader hn hu
  | (.ok (some (.chunk c)), loader) =>
      cases hd : s.destroyed with
      | true =>
          have ha : s.applyFrame p.summary (.chunk c) = (.error (.destroyed s.name), s) := by
            simp only [applyFrame, hd, if_true]
          rw [stepPreload_of_refused hn ha]
          exact .ends
      | false =>
          rw [stepPreload_of_applied hn (applyFrame_chunk hd p.summary c)]
          exact .chunk c loader _ hn hd (Summary.header_count _ _)

theorem stepPreload_spec (C : Codec) (s : Stream) (p : Preload) (a : PreloadAction) :
    PreloadStep C s p a (s.stepPreload C p a) := by
  cases a with
  | advance => exact stepPreload_advance_spec C s p
  | cancel => exact .ends
  | transport event =>
      simp only [stepPreload]
      split
      · cases event with
        | bytes data => exact .waits _ (Loader.phase_feed p.loader data)
        | failed reason => exact .ends
        | closed =>
            simp only [transport]
            split <;> exact .ends
      · exact .waits p.loader rfl

/-- **Every step of a preload keeps a stream sound.** -/
theorem Sound.stepPreload (h : s.Sound) (C : Codec) (p : Preload) (a : PreloadAction) :
    (s.stepPreload C p a).2.Sound := by
  have hspec := stepPreload_spec C s p a
  generalize s.stepPreload C p a = result at hspec
  cases hspec with
  | waits loader same => exact h
  | header hd loader decoded usable => exact h.updateVitals hd.vitals
  | chunk c loader summary decoded alive same => exact h.insert c
  | ends => exact h.loading false

end Stream

namespace Broadcast

lemma sound_step {b : Broadcast} (h : b.stream.Sound) (C : Codec) (event : Event) :
    (b.step C event).stream.Sound := by
  cases event with
  | operate op => exact h.apply op
  | start => exact h.clear.loading true
  | preload id a =>
      simp only [step]
      split
      · exact h.stepPreload C _ a
      · exact h

/-- **Every stream in use is sound.** -/
theorem Reachable.sound {C : Codec} {b : Broadcast} (h : Reachable C b) : b.stream.Sound := by
  induction h with
  | new name windowSeconds readSize => exact Stream.sound_new name windowSeconds readSize
  | step event _ ih => exact sound_step ih C event

end Broadcast

end RewindRelay
