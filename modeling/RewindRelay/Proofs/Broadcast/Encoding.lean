import Mathlib.Logic.Function.Basic
import RewindRelay.Proofs.Broadcast.Run
import RewindRelay.Dump.Document
import RewindRelay.Dump.Writer
/-!
# One encoding at a time

Chunks under different stream keys are different audio, and a listener that is given both hears
noise.  To say that a store never holds both, every chunk that comes in is labelled with the key it
comes under: a live chunk with the key of the vitals in force, a chunk of a dump with the key of
the dump's header.  A store has one chunk for each timestamp, so a label belongs to a timestamp.

A stream changes its key in one step with discarding its audio, so live chunks never mix.  A
preload is different: it takes its key with the header, and each of its chunks in a later step.

* `Broadcast.entry?`, `Labelled.step` — the labels, as a run goes on.
* `Labelled.Unmixed` — every labelled chunk in the store has the current key.
* `Broadcast.TakesStale` — a chunk of a dump is kept though the key is not its header's any more.
* `Labelled.unmixed_throughout_iff` — **encodings mix exactly when a stale chunk is kept.**
* `Labelled.not_forall_unmixed` — it does happen.
-/

namespace RewindRelay

/-- The stream key in force. -/
def Stream.currentKey (s : Stream) : Option String := s.vitals.map Vitals.streamKey

/-- The stream key of a preload: that of its header, once it is there. -/
def Preload.headerKey (p : Preload) : Option String :=
  p.summary.header.map fun h => h.vitals.streamKey

namespace Broadcast

/-- The chunk that an event offers to the store, and the key it comes under. -/
def offer? (C : Codec) (b : Broadcast) : Event → Option (Chunk × Option String)
  | .operate (.push c) => some (c, b.stream.currentKey)
  | .preload id .advance =>
    match b.running.lookup id with
    | some p =>
      match (p.loader.nextFrame C).1 with
      | .ok (some (.chunk c)) => some (c, p.headerKey)
      | _ => none
    | none => none
  | _ => none

/-- Would the stream store the chunk? -/
def stores (b : Broadcast) (c : Chunk) : Bool :=
  !b.stream.destroyed && (b.stream.store.placement c.ts).isStored

/-- The chunk that an event brings into the store, and the key it comes under. -/
def entry? (C : Codec) (b : Broadcast) (event : Event) : Option (Chunk × Option String) :=
  (b.offer? C event).filter fun offer => b.stores offer.1

/-- A preload brings a chunk into the store, where it stays, though the stream has gone on to
another key than the one in the preload's header. -/
def TakesStale (C : Codec) (b : Broadcast) (event : Event) : Prop :=
  ∃ id p c key, event = .preload id .advance ∧ b.running.lookup id = some p ∧
    (p.loader.nextFrame C).1 = .ok (some (.chunk c)) ∧ p.headerKey = some key ∧
    b.stores c = true ∧ c ∈ (b.step C event).stream.store.chunks ∧ b.stream.currentKey ≠ some key

end Broadcast

/-- A stream in use, with a label for each timestamp. -/
structure Labelled where
  broadcast : Broadcast
  label : Int64 → Option String := fun _ => none

namespace Labelled

/-- An event, with the label of the chunk that it brings in. -/
def step (C : Codec) (x : Labelled) (event : Event) : Labelled where
  broadcast := x.broadcast.step C event
  label :=
    match x.broadcast.entry? C event with
    | some (c, key) => Function.update x.label c.ts key
    | none => x.label

def new (name : String) (windowSeconds : Float) (readSize : Nat) : Labelled :=
  { broadcast := .new name windowSeconds readSize }

/-- Every labelled chunk in the store has the current key. -/
def Unmixed (x : Labelled) : Prop :=
  ∀ c ∈ x.broadcast.stream.store.chunks, ∀ key, x.label c.ts = some key →
    x.broadcast.stream.currentKey = some key

end Labelled

/-! ## Steps that bring nothing in -/

namespace Stream

/-- The audio of the second stream is audio of the first, under the same key if it had one. -/
def KeepsKey (s s' : Stream) : Prop :=
  ∀ c ∈ s'.store.chunks, c ∈ s.store.chunks ∧
    ∀ key, s.currentKey = some key → s'.currentKey = some key

variable {s : Stream}

lemma keepsKey_of_eq {s' : Stream} (hc : s'.store.chunks = s.store.chunks)
    (hv : s'.vitals = s.vitals) : s.KeepsKey s' := by
  intro c hmem
  rw [hc] at hmem
  exact ⟨hmem, fun key hkey => by rwa [currentKey, hv]⟩

lemma keepsKey_of_nil {s' : Stream} (hc : s'.store.chunks = []) : s.KeepsKey s' := by
  intro c hmem
  rw [hc] at hmem
  cases hmem

lemma keepsKey_adjust (s : Stream) : s.KeepsKey s.adjust :=
  fun _ hc => ⟨List.mem_of_mem_drop hc, fun _ hkey => hkey⟩

lemma keepsKey_updateVitals (s : Stream) (v : Vitals) : s.KeepsKey (s.updateVitals v).2 := by
  rcases updateVitals_cases s v with ⟨-, heq⟩ | ⟨-, hsame, heq⟩ | ⟨-, -, heq⟩ <;> rw [heq]
  · exact keepsKey_of_eq rfl rfl
  · intro c hc
    refine ⟨List.mem_of_mem_drop hc, fun key hkey => ?_⟩
    obtain ⟨v', hv', rfl⟩ := Option.map_eq_some_iff.mp hkey
    simp [currentKey, adjust, hsame v' hv']
  · exact keepsKey_of_nil (List.rtake_nil _)

lemma keepsKey_act (s : Stream) (id : ListenerId) (a : ListenerAction) :
    s.KeepsKey (s.act id a) := by
  rw [act_frame]
  exact keepsKey_of_eq rfl rfl

/-- Operations other than a push bring nothing in and keep the key or discard the audio. -/
lemma keepsKey_apply (s : Stream) {op : Operation} (h : ∀ c, op ≠ .push c) :
    s.KeepsKey (op.apply s) := by
  cases op with
  | push c => exact absurd rfl (h c)
  | updateVitals v => exact s.keepsKey_updateVitals v
  | setWindow seconds => exact fun _ hc => ⟨List.mem_of_mem_drop hc, fun _ hkey => hkey⟩
  | adjust => exact s.keepsKey_adjust
  | reset => exact keepsKey_of_nil rfl
  | destroy =>
      simp only [Operation.apply, destroy]
      split
      · exact keepsKey_of_eq rfl rfl
      · exact keepsKey_of_nil rfl
  | serve id a => exact s.keepsKey_act id a
  | drop id => exact s.keepsKey_act id .leave
  | join options readSize => exact keepsKey_of_eq rfl rfl
  | reports => exact keepsKey_of_eq rfl rfl
  | disconnectSlow maxBytes => exact keepsKey_of_eq rfl rfl

end Stream

/-! ## Steps that bring a chunk in -/

namespace Labelled

open Chunk (Ascending)

/-- A chunk that comes in under the current key or none leaves the labels right, and so does one
that does not stay. -/
lemma agrees_insert_iff {s : Store} (h : Ascending s.chunks) {c : Chunk}
    (hs : (s.placement c.ts).isStored = true) {label : Int64 → Option String}
    {current entering : Option String}
    (hag : ∀ x ∈ s.chunks, ∀ key, label x.ts = some key → current = some key) :
    (∀ x ∈ (s.insert c).2.chunks, ∀ key, Function.update label c.ts entering x.ts = some key →
      current = some key) ↔
    (c ∈ (s.insert c).2.chunks → ∀ key, entering = some key → current = some key) := by
  constructor
  · intro hall hc key hkey
    exact hall c hc key (by rw [Function.update_self, hkey])
  · intro hnew x hx key hkey
    rcases Store.mem_chunks_insert hx with hold | ⟨rfl, -⟩
    · rw [Function.update_of_ne (Store.ts_ne_of_isStored h hs hold)] at hkey
      exact hag x hold key hkey
    · rw [Function.update_self] at hkey
      exact hnew hx key hkey

variable {C : Codec} {x : Labelled}

lemma step_of_entry_none {event : Event} (h : x.broadcast.entry? C event = none) :
    x.step C event = { x with broadcast := x.broadcast.step C event } := by
  simp only [step, h]

lemma step_of_entry_some {event : Event} {c : Chunk} {key : Option String}
    (h : x.broadcast.entry? C event = some (c, key)) :
    x.step C event =
      ⟨x.broadcast.step C event, Function.update x.label c.ts key⟩ := by
  simp only [step, h]

lemma Unmixed.of_keepsKey (h : x.Unmixed) {b : Broadcast}
    (hk : x.broadcast.stream.KeepsKey b.stream) : Unmixed { x with broadcast := b } := by
  intro c hc key hlabel
  obtain ⟨hold, hkey⟩ := hk c hc
  exact hkey key (h c hold key hlabel)

/-- What the stream becomes when an event brings a chunk in, other things apart. -/
lemma unmixed_insert_iff (hs : x.broadcast.stream.Sound) (h : x.Unmixed) {c : Chunk}
    {entering : Option String} (hstores : x.broadcast.stores c = true) {b : Broadcast}
    (hc : b.stream.store.chunks = (x.broadcast.stream.store.insert c).2.chunks)
    (hv : b.stream.vitals = x.broadcast.stream.vitals) :
    Unmixed ⟨b, Function.update x.label c.ts entering⟩ ↔
      (c ∈ b.stream.store.chunks → ∀ key, entering = some key →
        x.broadcast.stream.currentKey = some key) := by
  simp only [Broadcast.stores, Bool.and_eq_true] at hstores
  simp only [Unmixed, hc, Stream.currentKey, hv]
  exact agrees_insert_iff hs.ascending hstores.2 h

/-- A live chunk never mixes: it comes under the key in force. -/
lemma Unmixed.push (hs : x.broadcast.stream.Sound) (h : x.Unmixed) (c : Chunk) :
    (x.step C (.operate (.push c))).Unmixed := by
  set b := x.broadcast with hb
  have hstep : b.step C (.operate (.push c)) = { b with stream := (b.stream.push c).2 } := rfl
  cases hst : b.stores c with
  | false =>
      have hnone : b.entry? C (.operate (.push c)) = none := by
        simp [Broadcast.entry?, Broadcast.offer?, hst]
      rw [step_of_entry_none hnone]
      refine h.of_keepsKey ?_
      rw [← hb, hstep]
      rcases Stream.push_cases b.stream c with ⟨-, heq⟩ | ⟨hd, hp, -⟩ | ⟨hd, -, heq⟩
      · exact Stream.keepsKey_of_eq (by rw [heq]) (by rw [heq])
      · simp [Broadcast.stores, hd, hp, InsertOutcome.isStored] at hst
      · have hns : (b.stream.store.placement c.ts).isStored = false := by
          simpa [Broadcast.stores, hd] using hst
        refine Stream.keepsKey_of_eq ?_ (by rw [heq])
        rw [heq]
        exact Store.chunks_insert_of_not_isStored hns
  | true =>
      have hsome : b.entry? C (.operate (.push c)) = some (c, b.stream.currentKey) := by
        simp [Broadcast.entry?, Broadcast.offer?, hst]
      rw [step_of_entry_some hsome]
      have hd : b.stream.destroyed = false := by simp_all [Broadcast.stores]
      refine (unmixed_insert_iff hs h hst ?_ ?_).mpr fun _ key hkey => hkey
      all_goals
        rw [← hb, hstep]
        rcases Stream.push_cases b.stream c with ⟨hd', -⟩ | ⟨-, -, heq⟩ | ⟨-, -, heq⟩
        · rw [hd] at hd'; cases hd'
        · rw [heq]; rfl
        · rw [heq]

/-- A chunk of a dump mixes in exactly when it is stale and stays. -/
lemma unmixed_preloaded_iff (hs : x.broadcast.stream.Sound) (h : x.Unmixed) {id : PreloadId}
    {p p' : Preload} (hp : x.broadcast.running.lookup id = some p) {c : Chunk} {loader : Loader}
    (hn : p.loader.nextFrame C = (.ok (some (.chunk c)), loader))
    (alive : x.broadcast.stream.destroyed = false)
    (hstep : x.broadcast.stream.stepPreload C p .advance =
      (some p', { x.broadcast.stream with store := (x.broadcast.stream.store.insert c).2 })) :
    (x.step C (.preload id .advance)).Unmixed ↔
      ¬ Broadcast.TakesStale C x.broadcast (.preload id .advance) := by
  have hb : x.broadcast.step C (.preload id .advance) =
      { x.broadcast with
        stream := { x.broadcast.stream with store := (x.broadcast.stream.store.insert c).2 }
        running := x.broadcast.settle id (some p') } := by
    simp only [Broadcast.step, hp, hstep]
  have hoffer : x.broadcast.offer? C (.preload id .advance) = some (c, p.headerKey) := by
    simp only [Broadcast.offer?, hp, hn]
  cases hst : x.broadcast.stores c with
  | false =>
      have hnone : x.broadcast.entry? C (.preload id .advance) = none := by
        simp [Broadcast.entry?, hoffer, hst]
      have hns : (x.broadcast.stream.store.placement c.ts).isStored = false := by
        simpa [Broadcast.stores, alive] using hst
      have hnot : ¬ Broadcast.TakesStale C x.broadcast (.preload id .advance) := by
        rintro ⟨k, q, d, key, hevent, hq, hd, -, hstores, -⟩
        cases hevent
        rw [hp] at hq
        cases hq
        rw [hn] at hd
        cases hd
        rw [hst] at hstores
        cases hstores
      rw [step_of_entry_none hnone, hb]
      simp only [hnot, not_false_eq_true, iff_true]
      exact h.of_keepsKey
        (Stream.keepsKey_of_eq (Store.chunks_insert_of_not_isStored hns) rfl)
  | true =>
      have hsome : x.broadcast.entry? C (.preload id .advance) = some (c, p.headerKey) := by
        simp [Broadcast.entry?, hoffer, hst]
      rw [step_of_entry_some hsome,
        unmixed_insert_iff hs h hst (by rw [hb]) (by rw [hb])]
      constructor
      · rintro hall ⟨k, q, d, key, hevent, hq, hd, hkey, -, hmem, hne⟩
        cases hevent
        rw [hp] at hq
        cases hq
        rw [hn] at hd
        cases hd
        exact hne (hall hmem key hkey)
      · intro hnot hmem key hkey
        by_contra hne
        exact hnot ⟨id, p, c, key, rfl, hp, by rw [hn], hkey, hst, hmem, hne⟩

/-- A step of a preload that decodes no chunk, or not for a stream in use, brings nothing in. -/
lemma entry?_preload_eq_none {b : Broadcast} {id : PreloadId} {p : Preload} {a : PreloadAction}
    (hp : b.running.lookup id = some p)
    (h : ¬ ∃ c loader, a = .advance ∧ b.stream.destroyed = false ∧
      p.loader.nextFrame C = (.ok (some (.chunk c)), loader)) :
    b.entry? C (.preload id a) = none ∧ ¬ b.TakesStale C (.preload id a) := by
  have hdead : ∀ c, a = .advance → (p.loader.nextFrame C).1 = .ok (some (.chunk c)) →
      b.stores c = false := by
    intro c ha hc
    by_contra hst
    refine h ⟨c, (p.loader.nextFrame C).2, ha, ?_, by rw [← hc]⟩
    simp_all [Broadcast.stores]
  constructor
  · cases a with
    | advance =>
        simp only [Broadcast.entry?, Broadcast.offer?, hp]
        split
        · next c hc => simp [hdead c rfl hc]
        · rfl
    | transport event => rfl
    | cancel => rfl
  · rintro ⟨k, q, c, key, hevent, hq, hc, -, hst, -⟩
    cases hevent
    rw [hp] at hq
    cases hq
    rw [hdead c rfl hc] at hst
    cases hst

lemma unmixed_preload_iff (hs : x.broadcast.stream.Sound) (h : x.Unmixed) (id : PreloadId)
    (a : PreloadAction) :
    (x.step C (.preload id a)).Unmixed ↔
      ¬ Broadcast.TakesStale C x.broadcast (.preload id a) := by
  cases hl : x.broadcast.running.lookup id with
  | none =>
      have hnot : ¬ Broadcast.TakesStale C x.broadcast (.preload id a) := by
        rintro ⟨k, p, c, key, hevent, hp, -⟩
        cases hevent
        rw [hl] at hp
        cases hp
      have hnone : x.broadcast.entry? C (.preload id a) = none := by
        cases a <;> simp [Broadcast.entry?, Broadcast.offer?, hl]
      have hsame : x.broadcast.step C (.preload id a) = x.broadcast := by
        simp only [Broadcast.step, hl]
      simpa only [step_of_entry_none hnone, hsame, hnot, not_false_eq_true, iff_true] using h
  | some p =>
      by_cases hchunk : ∃ c loader, a = .advance ∧ x.broadcast.stream.destroyed = false ∧
          p.loader.nextFrame C = (.ok (some (.chunk c)), loader)
      · obtain ⟨c, loader, rfl, alive, hn⟩ := hchunk
        exact unmixed_preloaded_iff hs h hl hn alive
          (Stream.stepPreload_of_applied hn (Stream.applyFrame_chunk alive p.summary c))
      · obtain ⟨hnone, hnot⟩ := entry?_preload_eq_none hl hchunk
        rw [step_of_entry_none hnone]
        simp only [hnot, not_false_eq_true, iff_true]
        refine h.of_keepsKey ?_
        have hspec := Stream.stepPreload_spec C x.broadcast.stream p a
        simp only [Broadcast.step, hl]
        generalize x.broadcast.stream.stepPreload C p a = result at hspec
        cases hspec with
        | waits loader same => exact Stream.keepsKey_of_eq rfl rfl
        | header hd loader decoded usable => exact Stream.keepsKey_updateVitals _ hd.vitals
        | chunk c loader summary decoded alive same =>
            exact absurd ⟨c, loader, rfl, alive, decoded⟩ hchunk
        | ends => exact Stream.keepsKey_of_eq rfl rfl

/-! ## The law -/

/-- From a state in which the encodings are apart, they mix exactly when a stale chunk is kept. -/
lemma unmixed_step_iff (hs : x.broadcast.stream.Sound) (h : x.Unmixed) (event : Event) :
    (x.step C event).Unmixed ↔ ¬ Broadcast.TakesStale C x.broadcast event := by
  cases event with
  | operate op =>
      have hnot : ¬ Broadcast.TakesStale C x.broadcast (.operate op) := by
        rintro ⟨id, p, c, key, hevent, -⟩
        cases hevent
      simp only [hnot, not_false_eq_true, iff_true]
      by_cases hpush : ∃ c, op = .push c
      · obtain ⟨c, rfl⟩ := hpush
        exact h.push hs c
      · have hne : ∀ c, op ≠ .push c := fun c hc => hpush ⟨c, hc⟩
        have hnone : x.broadcast.entry? C (.operate op) = none := by
          cases op with
          | push c => exact absurd rfl (hne c)
          | _ => rfl
        rw [step_of_entry_none hnone]
        exact h.of_keepsKey (Stream.keepsKey_apply _ hne)
  | start =>
      have hnot : ¬ Broadcast.TakesStale C x.broadcast .start := by
        rintro ⟨id, p, c, key, hevent, -⟩
        cases hevent
      simp only [hnot, not_false_eq_true, iff_true]
      rw [step_of_entry_none rfl]
      exact h.of_keepsKey (Stream.keepsKey_of_nil rfl)
  | preload id a => exact unmixed_preload_iff hs h id a

/-- **Encodings mix exactly when a stale chunk is kept.**  Throughout a run every labelled chunk in
the store has the current key, if and only if no event of the run brings in a chunk of a dump, to
stay, after the stream has gone on to another key than the dump's. -/
theorem unmixed_throughout_iff (C : Codec) (name : String) (windowSeconds : Float)
    (readSize : ℕ) (events : List Event) :
    Throughout (step C) (new name windowSeconds readSize) events Unmixed ↔
      Never (step C) (new name windowSeconds readSize) events
        fun x event => Broadcast.TakesStale C x.broadcast event := by
  refine throughout_iff_never (fun x : Labelled => x.broadcast.stream.Sound)
    (Stream.sound_new name windowSeconds readSize)
    (fun x event hs => Broadcast.sound_step hs C event) ?_
    (fun x event hs h => unmixed_step_iff hs h event)
  intro c hc
  simp [new, Broadcast.new, Stream.new, Stream.adjust, Store.empty, Store.setCapacity] at hc

/-- A dump of one chunk under the key "a". -/
def dumpUnderA : Bytes :=
  match (DumpWriter.ofChunks { streamKey := "a", chunkDuration := 1 }
    [{ ts := 0, duration := 1000, data := [0] }] defaultReadSize).poll .json with
  | (.ok (some bytes), _) => bytes
  | _ => []

/-- Other vitals between the header of a dump and its chunk. -/
def latecomer : List Event :=
  [.start, .preload 0 (.transport (.bytes dumpUnderA)), .preload 0 .advance,
    .operate (.updateVitals { streamKey := "b", chunkDuration := 1 }), .preload 0 .advance]

/-- **Encodings are not kept apart in every run.**  When a source reports another key between the
header of a dump and its chunk, the chunk enters the store under a key that is not its own. -/
theorem not_forall_unmixed :
    ¬ ∀ events, Throughout (step .json) (new "main" 300 65536) events Unmixed := by
  intro h
  have hun := h latecomer latecomer (List.prefix_refl _)
  set x := latecomer.foldl (step .json) (new "main" 300 65536) with hx
  have hstored : x.broadcast.stream.store.chunks.map Chunk.ts = [0] := by decide +kernel
  have hlabel : x.label 0 = some "a" := by decide +kernel
  have hkey : x.broadcast.stream.currentKey = some "b" := by decide +kernel
  obtain ⟨c, hc, hts⟩ : ∃ c ∈ x.broadcast.stream.store.chunks, c.ts = 0 := by
    have hmem : (0 : Int64) ∈ x.broadcast.stream.store.chunks.map Chunk.ts := by simp [hstored]
    exact List.mem_map.mp hmem
  have hmixed := hun c hc "a" (by rw [hts, hlabel])
  rw [hkey] at hmixed
  exact absurd hmixed (by decide)

end Labelled

end RewindRelay
