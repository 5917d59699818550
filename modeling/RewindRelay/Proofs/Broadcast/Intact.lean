import RewindRelay.Proofs.Broadcast.Passage
import RewindRelay.Proofs.Stream.Slice
/-!
# A stream in order, and a stream that is over

Whatever is done to a stream, and in whatever order, it stays in order: its audio goes forward in
time and is no more than the window and the vitals allow, and every slice that it reads is there.
And once it is destroyed it stays so: it has no audio and no listeners, takes none of either, and
what a preload still brings is refused.

* `Stream.Intact` — a stream in order.
* `Stream.Gone` — a stream that is over.
* `Broadcast.intact_run` — **every run leaves a stream in order, and every run past the end leaves
  it over.**
-/

namespace RewindRelay

open Chunk (Ascending)

namespace Stream

/-- The audio is in order and within its bound, and every slice that is asked for is there. -/
structure Intact (s : Stream) : Prop where
  ascending : Ascending s.store.chunks
  bounded : s.store.length ≤ s.store.capacity
  one_le : 1 ≤ s.store.capacity
  /-- The bound is that of the window and the vitals of now; a chunk is taken to play for a fiftieth
  of a second before there are any. -/
  capacity : s.store.capacity = max 1 (Decimal.nearestCount
    (s.windowSeconds / (s.vitals.map Vitals.chunkDuration).getD 0.02))
  due : ∀ seat, due? s.store seat = some (Stream.due s.store seat)
  range : ∀ q length, s.store.range? q length = (s.store.range q length).map some
  seed : ∀ o offset, s.seed? o offset = some (s.seed o offset)
  /-- An offset is counted back from a position that is there. -/
  position : ∀ ts i, s.store.indexOfTimestamp? ts = .ok (some i) → i < s.store.length

lemma Sound.intact {s : Stream} (h : s.Sound) : s.Intact where
  ascending := h.ascending
  bounded := h.bounded
  one_le := h.one_le_capacity
  capacity := by
    rw [h.capacity]
    cases s.vitals <;> rfl
  due := due?_eq s.store
  range := s.store.range?_eq
  seed := s.seed?_eq
  position := fun _ _ => s.store.lt_of_indexOfTimestamp?

/-- The stream is over: there is no audio and nobody listens, and all that would bring either is
refused. -/
structure Gone (C : Codec) (s : Stream) : Prop where
  silent : s.store.chunks = []
  vacant : s.seated = []
  push : ∀ c, s.push c = (.error (.destroyed s.name), s)
  attach : ∀ l, s.attach l = .error (.stream (.destroyed s.name))
  /-- A preload that brings a chunk is refused it. -/
  frame : ∀ summary c, s.applyFrame summary (.chunk c) = (.error (.destroyed s.name), s)
  preload : ∀ p a, (s.stepPreload C p a).2.store.chunks = []

lemma Regular.gone {s : Stream} (h : s.Regular) (hd : s.destroyed = true)
    (hnil : s.store.chunks = []) (C : Codec) : s.Gone C where
  silent := hnil
  vacant := h.vacant hd
  push := fun c => by simp only [Stream.push, hd, if_true]
  attach := fun l => by simp only [Stream.attach, hd, if_true]
  frame := fun summary c => by simp only [applyFrame, hd, if_true]
  preload := chunks_stepPreload_of_destroyed hd hnil C

end Stream

namespace Broadcast

lemma destroyed_run {C : Codec} {b : Broadcast} (h : b.stream.destroyed = true)
    (events : List Event) : (b.run C events).stream.destroyed = true := by
  induction events generalizing b with
  | nil => exact h
  | cons event events ih => exact ih (destroyed_step_of_destroyed h C event)

/-- **Every run leaves a stream in order, and every run past the end leaves it over**, whatever was
done to it before the end and is done to it after. -/
theorem intact_run (C : Codec) (name : String) (windowSeconds : Float) (readSize : ℕ)
    (events future : List Event) :
    ((new name windowSeconds readSize).run C events).stream.Intact ∧
      ((new name windowSeconds readSize).run C
        (events ++ .operate .destroy :: future)).stream.Gone C := by
  have hreachable : ∀ events, Reachable C ((new name windowSeconds readSize).run C events) :=
    reachable_run C (.new name windowSeconds readSize)
  refine ⟨(hreachable events).sound.intact, ?_⟩
  have hover := hreachable (events ++ .operate .destroy :: future)
  have hd : ((new name windowSeconds readSize).run C
      (events ++ .operate .destroy :: future)).stream.destroyed = true := by
    rw [run_append]
    exact destroyed_run (Stream.destroyed_destroy _) future
  exact hover.regular.gone hd (hover.chunks_of_destroyed hd) C

end Broadcast

end RewindRelay
