import RewindRelay.Proofs.Broadcast.Loading
import RewindRelay.Proofs.Dump.Snapshot
import RewindRelay.Proofs.Store.Window
/-!
# Live audio during a preload

While a preload runs the source goes on pushing.  Both fill the same store, the preload from the
oldest end and the source from the newest, and each of them may make the store evict what the other
has just brought.  Still the order in which they take turns makes no difference: at any moment the
store holds the newest of all chunks that were there or have come in, so in the end it holds the
newest of all of them.

* `Broadcast.pushed`, `Broadcast.applied` — what a run brings in, at either end.
* `Broadcast.Holds` — the invariant: the newest of all chunks so far.
* `Broadcast.Holds.push`, `Broadcast.Holds.preload` — **each of the two keeps it.**
* `Broadcast.Interleaves` — the calls of a source and the steps of a preload, taking turns.
* `Broadcast.Reachable.pushes_commute` — **pushes commute with a preload.**
-/

namespace RewindRelay

open Chunk (Ascending)

variable {C : Codec}

/-! ## What comes in -/

/-- The chunk that a step of a preload is about to apply. -/
def Preload.brings (C : Codec) (p : Preload) : PreloadAction → Option Chunk
  | .advance =>
    match (p.loader.nextFrame C).1 with
    | .ok (some (.chunk c)) => some c
    | _ => none
  | _ => none

/-- The chunk that an event pushes. -/
def Event.pushed? : Event → Option Chunk
  | .operate (.push c) => some c
  | _ => none

namespace Broadcast

/-- The chunk of a dump that an event is about to apply, if it is a step of this preload. -/
def brings (C : Codec) (id : PreloadId) (b : Broadcast) : Event → Option Chunk
  | .preload k a => if k = id then (b.running.lookup id).bind fun p => p.brings C a else none
  | _ => none

/-- The chunks that a preload applies in a run, in order. -/
def applied (C : Codec) (id : PreloadId) : Broadcast → List Event → List Chunk
  | _, [] => []
  | b, e :: events => (b.brings C id e).toList ++ applied C id (b.step C e) events

/-- The chunks that the source pushes in a run, in order. -/
def pushed (events : List Event) : List Chunk := events.filterMap Event.pushed?

/-- A push, or a step of this preload. -/
inductive Joint (id : PreloadId) : Event → Prop
  | push (c : Chunk) : Joint id (.operate (.push c))
  | preload (a : PreloadAction) : Joint id (.preload id a)

/-- The pushes of these live chunks, taking turns with as many steps of a preload as there are
chunks in a dump. -/
inductive Interleaves (id : PreloadId) : List Chunk → List Chunk → List Event → Prop
  | nil : Interleaves id [] [] []
  | push {dump lives : List Chunk} {events : List Event} (c : Chunk) :
    Interleaves id dump lives events →
      Interleaves id dump (c :: lives) (.operate (.push c) :: events)
  | frame {dump lives : List Chunk} {events : List Event} (c : Chunk) :
    Interleaves id dump lives events →
      Interleaves id (c :: dump) lives (.preload id .advance :: events)

variable {b : Broadcast} {id : PreloadId}

lemma applied_append (b : Broadcast) (first second : List Event) :
    applied C id b (first ++ second) =
      applied C id b first ++ applied C id (b.run C first) second := by
  induction first generalizing b with
  | nil => rfl
  | cons e first ih =>
      rw [List.cons_append, applied, applied, ih, List.append_assoc]
      rfl

/-- What is there and what a run brings in, oldest first. -/
def merged (C : Codec) (id : PreloadId) (b : Broadcast) (all : List Chunk) (events : List Event) :
    List Chunk :=
  (applied C id b events).reverse ++ all ++ pushed events

lemma pushed_push (c : Chunk) (events : List Event) :
    pushed (.operate (.push c) :: events) = c :: pushed events := rfl

lemma pushed_preload (id : PreloadId) (a : PreloadAction) (events : List Event) :
    pushed (.preload id a :: events) = pushed events := rfl

lemma pushed_append (first second : List Event) :
    pushed (first ++ second) = pushed first ++ pushed second := List.filterMap_append

lemma merged_push (c : Chunk) (all : List Chunk) (events : List Event) :
    merged C id b all (.operate (.push c) :: events) =
      merged C id (b.step C (.operate (.push c))) (all ++ [c]) events := by
  rw [merged, merged, pushed_push]
  simp only [applied, brings, Option.toList_none, List.nil_append, List.append_assoc,
    List.singleton_append]

lemma merged_concat_push (b : Broadcast) (all : List Chunk) (events : List Event) (c : Chunk) :
    merged C id b all (events ++ [.operate (.push c)]) = merged C id b all events ++ [c] := by
  rw [merged, merged, applied_append, pushed_append, pushed_push]
  simp only [applied, brings, Option.toList_none, List.append_nil, List.append_assoc]
  rfl

lemma merged_preload (a : PreloadAction) (all : List Chunk) (events : List Event) :
    merged C id b all (.preload id a :: events) =
      merged C id (b.step C (.preload id a)) ((b.brings C id (.preload id a)).toList ++ all)
        events := by
  have hone : (b.brings C id (.preload id a)).toList.reverse =
      (b.brings C id (.preload id a)).toList := by
    cases b.brings C id (.preload id a) <;> rfl
  rw [merged, merged, pushed_preload, applied, List.reverse_append, hone]
  simp only [List.append_assoc]

lemma sublist_merged (b : Broadcast) (all : List Chunk) (events : List Event) :
    all.Sublist (merged C id b all events) :=
  (List.sublist_append_right _ _).trans (List.sublist_append_left _ _)

/-- What the first events of a run have brought in is a part of what all of them do. -/
lemma merged_sublist (b : Broadcast) (all : List Chunk) {past events : List Event}
    (h : past <+: events) :
    (merged C id b all past).Sublist (merged C id b all events) := by
  obtain ⟨rest, rfl⟩ := h
  rw [merged, merged, applied_append, List.reverse_append, pushed_append]
  simp only [List.append_assoc]
  exact List.sublist_append_of_sublist_right (List.Sublist.append_left
    (List.Sublist.append_left (List.sublist_append_left _ _) _) _)

end Broadcast

/-! ## Steps of a preload behind its header -/

namespace Stream

variable {s : Stream} {p : Preload} {a : PreloadAction}

lemma stepPreload_of_brings (alive : s.destroyed = false) {c : Chunk}
    (h : p.brings C a = some c) :
    ∃ loader : Loader, loader.phase = .chunk ∧ s.stepPreload C p a =
      (some ⟨loader, p.summary.count (s.store.placement c.ts)⟩,
        { s with store := (s.store.insert c).2 }) := by
  cases a with
  | advance =>
      rcases hnext : p.loader.nextFrame C with ⟨e | _ | (header | d), loader⟩ <;>
        simp only [Preload.brings, hnext, reduceCtorEq, Option.some.injEq] at h
      subst h
      exact ⟨loader, (Loader.spells_of_nextFrame hnext).1,
        stepPreload_of_applied hnext (applyFrame_chunk alive _ _)⟩
  | transport event => cases h
  | cancel => cases h

/-- A step that applies no chunk leaves the audio alone, and the counts if the preload goes on. -/
lemma stepPreload_of_brings_none (hphase : p.loader.phase ≠ .header)
    (h : p.brings C a = none) :
    (s.stepPreload C p a).2.store = s.store ∧
      (s.stepPreload C p a).2.destroyed = s.destroyed ∧
      ∀ p', (s.stepPreload C p a).1 = some p' →
        p'.loader.phase ≠ .header ∧ p'.summary = p.summary := by
  have hspec := stepPreload_spec C s p a
  generalize s.stepPreload C p a = result at hspec ⊢
  cases hspec with
  | waits loader same =>
      refine ⟨rfl, rfl, fun p' hp' => ?_⟩
      cases hp'
      exact ⟨by rwa [same], rfl⟩
  | header header loader decoded usable =>
      -- there is no second header
      obtain ⟨-, bytes, -, hspells⟩ := Loader.spells_of_nextFrame decoded
      generalize p.loader.phase = phase at hphase hspells
      cases hspells
      exact absurd rfl hphase
  | chunk c loader summary decoded alive same =>
      simp only [Preload.brings, decoded, reduceCtorEq] at h
  | ends => exact ⟨rfl, rfl, fun p' hp' => by cases hp'⟩

end Stream

/-! ## The invariant -/

namespace Broadcast

variable {b : Broadcast} {id : PreloadId} {bound loaded skipped : ℕ} {all : List Chunk}

/-- The store holds the newest of all chunks so far, as many as it may, and the preload, which has
its header behind it, has loaded and skipped so many, if it is still running. -/
structure Holds (id : PreloadId) (b : Broadcast) (bound : ℕ) (all : List Chunk)
    (loaded skipped : ℕ) : Prop where
  alive : b.stream.destroyed = false
  capacity : b.stream.store.capacity = bound
  audio : b.stream.store.chunks = all.rtake bound
  begun : ∀ p, b.running.lookup id = some p → p.loader.phase ≠ .header
  counted : ∀ p, b.running.lookup id = some p →
    p.summary.loaded = loaded ∧ p.summary.skipped = skipped

/-- A preload that is running after a step is what the step has made of it. -/
lemma eq_of_lookup_settle {p? : Option Preload} {q : Preload}
    (h : (b.settle id p?).lookup id = some q) : p? = some q := by
  cases p? with
  | none =>
      rw [lookup_settle_none] at h
      cases h
  | some p =>
      simp only [settle] at h
      generalize b.running = running at h
      induction running with
      | nil => cases h
      | cons r rest ih =>
          by_cases hr : r.1 = id
          · simpa [hr] using h
          · rw [List.map_cons, if_neg hr, List.lookup_cons,
              beq_eq_false_iff_ne.mpr (Ne.symm hr)] at h
            exact ih h

lemma lookup_settle {p : Preload} (h : b.running.lookup id = some p) (q : Preload) :
    (b.settle id (some q)).lookup id = some q := by
  cases hq : (b.settle id (some q)).lookup id with
  | none =>
      rw [lookup_settle_some, h] at hq
      cases hq
  | some q' => rw [← eq_of_lookup_settle hq]

/-- **A push keeps it**, and its chunk is stored. -/
lemma Holds.push (h : Holds id b bound all loaded skipped) {c : Chunk}
    (hasc : Ascending (all ++ [c])) :
    (b.stream.push c).1 = .ok .appended ∧
      Holds id (b.step C (.operate (.push c))) bound (all ++ [c]) loaded skipped := by
  have hstore : b.stream.store.chunks = all.rtake b.stream.store.capacity := by
    rw [h.audio, h.capacity]
  obtain ⟨hplace, haudio⟩ := Store.insert_newer hstore hasc
  have hpush := Stream.push_of_appended h.alive hplace
  refine ⟨by rw [hpush], ?_⟩
  simp only [step, Stream.Operation.apply, hpush]
  exact
    { alive := h.alive
      capacity := (Store.capacity_insert _ _).trans h.capacity
      audio := haudio.trans (by rw [h.capacity])
      begun := h.begun
      counted := h.counted }

/-- **A step of the preload keeps it**, and if a chunk is applied, it is stored. -/
lemma Holds.preload (h : Holds id b bound all loaded skipped) (hbound : 1 ≤ bound)
    (a : PreloadAction)
    (hasc : Ascending ((b.brings C id (.preload id a)).toList ++ all)) :
    Holds id (b.step C (.preload id a)) bound ((b.brings C id (.preload id a)).toList ++ all)
      (loaded + (b.brings C id (.preload id a)).toList.length) skipped := by
  cases hl : b.running.lookup id with
  | none =>
      have hsame : b.step C (.preload id a) = b := by simp only [step, hl]
      have hnone : b.brings C id (.preload id a) = none := by simp [brings, hl]
      rw [hsame, hnone]
      exact h
  | some p =>
      have hbrings : b.brings C id (.preload id a) = p.brings C a := by simp [brings, hl]
      rw [hbrings] at hasc ⊢
      simp only [step, hl]
      cases hc : p.brings C a with
      | none =>
          obtain ⟨hstore, hdestroyed, hgoes⟩ := Stream.stepPreload_of_brings_none
            (s := b.stream) (h.begun p hl) hc
          refine ⟨hdestroyed.trans h.alive, by rw [hstore, h.capacity], ?_, fun q hq => ?_,
            fun q hq => ?_⟩
          · rw [hstore, h.audio]
            rfl
          · exact (hgoes q (eq_of_lookup_settle hq)).1
          · rw [(hgoes q (eq_of_lookup_settle hq)).2]
            exact h.counted p hl
      | some c =>
          obtain ⟨loader, hphase, hstep⟩ := Stream.stepPreload_of_brings h.alive hc
          rw [hc] at hasc
          have hstore : b.stream.store.chunks = all.rtake b.stream.store.capacity := by
            rw [h.audio, h.capacity]
          obtain ⟨hstored, haudio⟩ :=
            Store.insert_older (by rwa [h.capacity]) hstore hasc
          rw [hstep]
          refine ⟨h.alive, (Store.capacity_insert _ _).trans h.capacity,
            haudio.trans (by rw [h.capacity]; rfl), fun q hq => ?_, fun q hq => ?_⟩
          · have hq' : (b.settle id (some ⟨loader, _⟩)).lookup id = some q := hq
            cases eq_of_lookup_settle hq'
            simp [hphase]
          · have hq' : (b.settle id (some ⟨loader, _⟩)).lookup id = some q := hq
            cases eq_of_lookup_settle hq'
            simp only [Summary.count, hstored, if_true]
            exact ⟨congrArg (· + 1) (h.counted p hl).1, (h.counted p hl).2⟩

/-- **So does every run of pushes and steps.** -/
theorem Holds.run (h : Holds id b bound all loaded skipped) (hbound : 1 ≤ bound)
    {events : List Event} (hjoint : ∀ e ∈ events, Joint id e)
    (hasc : Ascending (merged C id b all events)) :
    Holds id (b.run C events) bound (merged C id b all events)
      (loaded + (applied C id b events).length) skipped := by
  induction events generalizing b all loaded with
  | nil => simpa [merged, applied, pushed, Broadcast.run] using h
  | cons e events ih =>
      have hrest : ∀ e ∈ events, Joint id e := fun e he => hjoint e (List.mem_cons_of_mem _ he)
      cases hjoint e (List.mem_cons_self ..) with
      | push c =>
          rw [merged_push] at hasc ⊢
          obtain ⟨-, hpush⟩ := h.push (hasc.sublist (sublist_merged _ _ _))
          exact ih hpush hrest hasc
      | preload a =>
          rw [merged_preload] at hasc ⊢
          have hstep := h.preload hbound a (hasc.sublist (sublist_merged _ _ _))
          have hrun := ih hstep hrest hasc
          rwa [Nat.add_assoc, ← List.length_append] at hrun

/-! ## Taking turns -/

/-- Where a loader has the frames of some chunks, they are what its preload applies, no matter what
is pushed in between. -/
lemma Interleaves.run {dump lives : List Chunk} {events : List Event}
    (h : Interleaves id dump lives events) (alive : b.stream.destroyed = false) {p : Preload}
    (hp : b.running.lookup id = some p)
    (hdump : (Loader.drain C p.loader).1 = dump.map .chunk) :
    (∀ e ∈ events, Joint id e) ∧ applied C id b events = dump ∧ pushed events = lives := by
  induction h generalizing b p with
  | nil => exact ⟨List.forall_mem_nil _, rfl, rfl⟩
  | @push dump lives events c _ ih =>
      obtain ⟨hjoint, happlied, hpushed⟩ :=
        ih (b := b.step C (.operate (.push c))) ((Stream.destroyed_push _ c).trans alive) hp hdump
      exact ⟨List.forall_mem_cons.mpr ⟨.push c, hjoint⟩, happlied, by rw [pushed_push, hpushed]⟩
  | @frame dump lives events c _ ih =>
      rcases hnext : p.loader.nextFrame C with ⟨e | _ | f, loader⟩
      · rw [Loader.drain_of_error hnext] at hdump
        cases hdump
      · rw [Loader.drain_of_settled (by rw [Loader.Settled, hnext])] at hdump
        cases hdump
      · rw [Loader.drain_of_frame hnext, List.map_cons, List.cons.injEq] at hdump
        obtain ⟨rfl, hrest⟩ := hdump
        have hbrings : b.brings C id (.preload id .advance) = some c := by
          simp [brings, hp, Preload.brings, hnext]
        set q : Preload := ⟨loader, p.summary.count (b.stream.store.placement c.ts)⟩ with hq
        have hstep : b.step C (.preload id .advance) =
            { b with
              stream := { b.stream with store := (b.stream.store.insert c).2 }
              running := b.settle id (some q) } := by
          simp only [step, hp, Stream.stepPreload_of_applied hnext
            (Stream.applyFrame_chunk alive p.summary c), hq]
        obtain ⟨hjoint, happlied, hpushed⟩ := ih (b := b.step C (.preload id .advance))
          (by rw [hstep]; exact alive) (by rw [hstep]; exact lookup_settle hp _) hrest
        refine ⟨List.forall_mem_cons.mpr ⟨.preload .advance, hjoint⟩, ?_, hpushed⟩
        rw [applied, hbrings, happlied]
        rfl

/-- What comes of pushes that take turns with the steps of a preload. -/
structure Commuted (C : Codec) (b : Broadcast) (id : PreloadId) (p : Preload)
    (dump lives : List Chunk) (events : List Event) : Prop where
  /-- Every push is stored as the newest chunk. -/
  appended : ∀ past c, past ++ [.operate (.push c)] <+: events →
    ((b.run C past).stream.push c).1 = .ok .appended
  /-- No chunk of the dump is ever skipped. -/
  counted : ∀ past, past <+: events → ∀ q, (b.run C past).running.lookup id = some q →
    q.summary.loaded = p.summary.loaded + (applied C id b past).length ∧
      q.summary.skipped = p.summary.skipped
  /-- In the end the newest of all chunks are there, in order. -/
  audio : (b.run C events).stream.store.chunks =
    (dump.reverse ++ b.stream.store.chunks ++ lives).rtake b.stream.store.capacity
  capacity : (b.run C events).stream.store.capacity = b.stream.store.capacity

/-- **Pushes commute with a preload.**  Let a preload have its header behind it, let a dump hold
chunks that are older than all that is stored, the newest of them first, and let the source push
chunks that are newer than all others.  However the pushes take turns with the steps of the preload,
each chunk is stored when it comes in, and in the end the stream holds the newest of all.  Every
order in which the calls and as many steps can be made is such a run, when the loader has the frames
of the dump. -/
theorem Reachable.pushes_commute (hb : Reachable C b) (alive : b.stream.destroyed = false)
    {p : Preload} (hp : b.running.lookup id = some p) (hbegun : p.loader.phase = .chunk)
    {dump lives : List Chunk}
    (hasc : Ascending (dump.reverse ++ b.stream.store.chunks ++ lives)) :
    (∀ events, (∀ e ∈ events, Joint id e) → applied C id b events = dump → pushed events = lives →
      Commuted C b id p dump lives events) ∧
    ((Loader.drain C p.loader).1 = dump.map .chunk → ∀ events, Interleaves id dump lives events →
      (∀ e ∈ events, Joint id e) ∧ applied C id b events = dump ∧ pushed events = lives) := by
  refine ⟨fun events hjoint happlied hpushed => ?_,
    fun hdump events hturns => hturns.run alive hp hdump⟩
  have hsound := hb.sound
  have hholds : Holds id b b.stream.store.capacity b.stream.store.chunks p.summary.loaded
      p.summary.skipped :=
    { alive
      capacity := rfl
      audio := (Store.rtake_eq_self hsound.bounded).symm
      begun := fun q hq => by
        cases hp.symm.trans hq
        simp [hbegun]
      counted := fun q hq => by
        cases hp.symm.trans hq
        exact ⟨rfl, rfl⟩ }
  have hall : merged C id b b.stream.store.chunks events =
      dump.reverse ++ b.stream.store.chunks ++ lives := by
    rw [merged, happlied, hpushed]
  rw [← hall] at hasc
  -- what holds in the end holds of every beginning of the run as well
  have hpast : ∀ past, past <+: events →
      Holds id (b.run C past) b.stream.store.capacity (merged C id b b.stream.store.chunks past)
        (p.summary.loaded + (applied C id b past).length) p.summary.skipped := fun past hpre =>
    hholds.run hsound.one_le_capacity (fun e he => hjoint e (hpre.subset he))
      (hasc.sublist (merged_sublist _ _ hpre))
  refine
    { appended := fun past c hpre => ?_
      counted := fun past hpre => (hpast past hpre).counted
      audio := by rw [(hpast events (List.prefix_refl _)).audio, hall]
      capacity := (hpast events (List.prefix_refl _)).capacity }
  have hnow := hasc.sublist (merged_sublist _ _ hpre)
  rw [merged_concat_push] at hnow
  exact ((hpast past ((List.prefix_append past _).trans hpre)).push (C := C) hnow).1

/-- A chunk of one second. -/
def second (n : ℕ) : Chunk := ⟨Int64.ofNat (1000 * n), 1000, [UInt8.ofNat n], none⟩

/-- A preload that has applied its header and has two chunks to go, on a stream of three chunks at
most to which one was pushed meanwhile. -/
def crowded : Broadcast :=
  run .json (new "main" 3 65536)
    [.start, .preload 0 (.transport (.bytes
        (dumpParts { streamKey := "a", chunkDuration := 1 } [second 0, second 1]).flatten)),
      .preload 0 .advance, .operate (.push (second 2))]

lemma running_crowded : (crowded.running.lookup 0).isSome = true := by decide +kernel

/-- Two pushes take turns with the two steps that are left. -/
def turns : List Event :=
  [.operate (.push (second 3)), .preload 0 .advance, .operate (.push (second 4)),
    .preload 0 .advance]

/-- The first push makes the store full, and the chunks of the dump leave it as they come in. -/
theorem crowded_commutes :
    Commuted .json crowded 0 ((crowded.running.lookup 0).get running_crowded)
      [second 1, second 0] [second 3, second 4] turns := by
  have hasc : Ascending ([second 1, second 0].reverse ++ crowded.stream.store.chunks ++
      [second 3, second 4]) := by decide +kernel
  obtain ⟨hcommutes, hturns⟩ := Reachable.pushes_commute
    (reachable_run .json (.new "main" 3 65536) _) (by decide +kernel)
    (Option.some_get running_crowded).symm (by decide +kernel) hasc
  obtain ⟨hjoint, happlied, hpushed⟩ := hturns (by decide +kernel) turns
    (.push _ (.frame _ (.push _ (.frame _ .nil))))
  exact hcommutes turns hjoint happlied hpushed

end Broadcast

end RewindRelay
