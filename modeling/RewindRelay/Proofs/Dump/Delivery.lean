import RewindRelay.Dump.Document
import RewindRelay.Proofs.Dump.Frame
/-!
# How a dump is delivered

A loader is fed and asked for frames in any order.  Once it has been fed all bytes and gives no
frame any more, it has given the frames and the error that it would have given had it been fed all
bytes at once, and it is the same loader.

* `Loader.Call`, `Loader.perform` — feeding and asking, in any order.
* `Loader.takeAll` — asking until there is nothing more.
* `Loader.takeAll_feed` — **one call makes no difference to what is given in the end.**
* `Loader.delivery` — **how bytes are delivered makes no difference.**
-/

namespace RewindRelay.Loader

/-- What is done with a loader. -/
inductive Call
  | feed (bytes : Bytes)
  /-- The next frame is asked for. -/
  | next

/-- All bytes that are fed. -/
def fed : List Call → Bytes
  | [] => []
  | .feed bytes :: rest => bytes ++ fed rest
  | .next :: rest => fed rest

/-- A frame or an error, if there is one. -/
def given? : Except FrameError (Option Frame) → Option (Except FrameError Frame)
  | .ok none => none
  | .ok (some f) => some (.ok f)
  | .error e => some (.error e)

/-- The frames and errors that the calls give, and the loader after them. -/
def perform (C : Codec) : Loader → List Call → List (Except FrameError Frame) × Loader
  | l, [] => ([], l)
  | l, .feed bytes :: rest => perform C (l.feed bytes) rest
  | l, .next :: rest =>
    ((given? (l.nextFrame C).1).toList ++ (perform C (l.nextFrame C).2 rest).1,
      (perform C (l.nextFrame C).2 rest).2)

/-- The frames that are drained, with the error that ended it behind them, and the loader then. -/
def takeAll (C : Codec) (l : Loader) : List (Except FrameError Frame) × Loader :=
  match drain C l with
  | (frames, .ok (), l') => (frames.map .ok, l')
  | (frames, .error e, l') => (frames.map .ok ++ [.error e], l')

variable {C : Codec} {l : Loader}

/-! ## Taking all there is -/

lemma takeAll_of_settled (h : Settled C l) : takeAll C l = ([], l) := by
  simp only [takeAll, drain_of_settled h, List.map_nil]

/-- Asking once before taking the rest. -/
lemma takeAll_eq (l : Loader) : takeAll C l =
    ((given? (l.nextFrame C).1).toList ++ (takeAll C (l.nextFrame C).2).1,
      (takeAll C (l.nextFrame C).2).2) := by
  rcases hnext : l.nextFrame C with ⟨e | _ | f, l'⟩
  · rw [takeAll_of_settled (settled_of_spent (spent_of_nextFrame hnext))]
    simp only [takeAll, drain_of_error hnext]
    rfl
  · obtain rfl := eq_of_nextFrame_none hnext
    rfl
  · rcases hdrain : drain C l' with ⟨frames, e | _, l''⟩
    · simp only [takeAll, drain_of_frame hnext, hdrain]
      rfl
    · simp only [takeAll, drain_of_frame hnext, hdrain]
      rfl

/-- **One call makes no difference to what is given in the end.** -/
theorem takeAll_feed (l : Loader) (calls : List Call) :
    takeAll C (l.feed (fed calls)) =
      ((perform C l calls).1 ++ (takeAll C (perform C l calls).2).1,
        (takeAll C (perform C l calls).2).2) := by
  induction calls generalizing l with
  | nil => simp only [fed, feed_nil, perform, List.nil_append]
  | cons call rest ih =>
      cases call with
      | feed bytes => rw [fed, ← feed_feed, perform, ih]
      | next =>
          by_cases hsettled : Settled C l
          · simp only [fed, perform, hsettled.nextFrame_eq, ih]
            rfl
          · -- the frame is the same whether the rest has come or not
            rw [fed, takeAll_eq, nextFrame_feed hsettled, ih]
            simp only [perform, List.append_assoc]

/-! ## Settling -/

lemma perform_append (l : Loader) (first second : List Call) :
    perform C l (first ++ second) =
      ((perform C l first).1 ++ (perform C (perform C l first).2 second).1,
        (perform C (perform C l first).2 second).2) := by
  induction first generalizing l with
  | nil => rfl
  | cons call rest ih =>
      cases call with
      | feed bytes => rw [List.cons_append, perform, perform, ih]
      | next => simp only [List.cons_append, perform, ih, List.append_assoc]

lemma perform_next_of_settled (h : Settled C l) (n : ℕ) :
    perform C l (List.replicate n .next) = ([], l) := by
  induction n with
  | zero => rfl
  | succ n ih => simp only [List.replicate_succ, perform, h.nextFrame_eq, ih, given?]; rfl

/-- Asking as often as there are bytes, and once more, takes all there is. -/
lemma settled_perform_next {n : ℕ} (h : l.buffered < n) :
    Settled C (perform C l (List.replicate n .next)).2 := by
  induction l using drainInduction (C := C) generalizing n with
  | settled l hsettled => rwa [perform_next_of_settled hsettled]
  | failed l l' e hnext =>
      obtain ⟨n, rfl⟩ := Nat.exists_eq_add_one.mpr (Nat.zero_lt_of_lt h)
      have hsettled : Settled C l' := settled_of_spent (spent_of_nextFrame hnext)
      simp only [List.replicate_succ, perform, hnext, perform_next_of_settled hsettled, hsettled]
  | frame l l' f hnext ih =>
      have hlt := buffered_lt_of_nextFrame hnext
      obtain ⟨n, rfl⟩ := Nat.exists_eq_add_one.mpr (Nat.zero_lt_of_lt h)
      simp only [List.replicate_succ, perform, hnext]
      exact ih (by omega)

lemma fed_replicate_next (n : ℕ) : fed (List.replicate n .next) = [] := by
  induction n with
  | zero => rfl
  | succ n ih => rwa [List.replicate_succ, fed]

/-- Asked often enough, a loader gives all there is. -/
lemma perform_ask (calls : List Call) {n : ℕ} (h : (perform C l calls).2.buffered < n) :
    perform C l (calls ++ List.replicate n .next) = takeAll C (l.feed (fed calls)) := by
  have hall := takeAll_feed (C := C) (perform C l calls).2 (List.replicate n .next)
  rw [fed_replicate_next, feed_nil, takeAll_of_settled (settled_perform_next h),
    List.append_nil] at hall
  rw [perform_append, takeAll_feed, hall]

/-! ## After an error -/

lemma perform_of_spent (h : l.phase = .spent) (calls : List Call) :
    perform C l calls = ([], l) := by
  induction calls with
  | nil => rfl
  | cons call rest ih =>
      cases call with
      | feed bytes => rw [perform, feed_of_spent h, ih]
      | next => simp only [perform, (settled_of_spent h).nextFrame_eq, ih, given?]; rfl

/-! What asking for a frame adds to what is given after it. -/

lemma perform_next_of_error {l' : Loader} {e : FrameError} (h : l.nextFrame C = (.error e, l'))
    (calls : List Call) : perform C l (.next :: calls) = ([.error e], l') := by
  simp only [perform, h, perform_of_spent (spent_of_nextFrame h), given?, Option.toList_some,
    List.append_nil]

lemma perform_next_of_none {l' : Loader} (h : l.nextFrame C = (.ok none, l'))
    (calls : List Call) : perform C l (.next :: calls) = perform C l calls := by
  obtain rfl := eq_of_nextFrame_none h
  simp only [perform, h, given?, Option.toList_none, List.nil_append]

lemma perform_next_of_frame {l' : Loader} {f : Frame} (h : l.nextFrame C = (.ok (some f), l'))
    (calls : List Call) : perform C l (.next :: calls) =
      (.ok f :: (perform C l' calls).1, (perform C l' calls).2) := by
  simp only [perform, h, given?, Option.toList_some, List.singleton_append]

lemma spent_of_error_mem {e : FrameError} {calls : List Call}
    (h : .error e ∈ (perform C l calls).1) : (perform C l calls).2.phase = .spent := by
  induction calls generalizing l with
  | nil => cases h
  | cons call rest ih =>
      cases call with
      | feed bytes => exact ih h
      | next =>
          rcases hnext : l.nextFrame C with ⟨e' | _ | f, l'⟩
          · rw [perform_next_of_error hnext]
            exact spent_of_nextFrame hnext
          · rw [perform_next_of_none hnext] at h ⊢
            exact ih h
          · rw [perform_next_of_frame hnext] at h ⊢
            exact ih ((List.mem_cons.mp h).resolve_left nofun)

/-! ## Delivery -/

/-- **How bytes are delivered makes no difference.**  However a loader is fed and asked for frames,
it gives no more after some more calls; then the frames, the error behind them and the loader
itself are those of the whole input, fed at once.  After an error nothing more is given, whatever is
fed. -/
theorem delivery (C : Codec) (calls : List Call) :
    (∀ n, (perform C {} calls).2.buffered < n →
      Settled C (perform C {} (calls ++ List.replicate n .next)).2) ∧
    (Settled C (perform C {} calls).2 → perform C {} calls = takeAll C (feed {} (fed calls))) ∧
    ∀ e, .error e ∈ (perform C {} calls).1 → ∀ more,
      (perform C {} (calls ++ more)).1 = (perform C {} calls).1 := by
  refine ⟨fun n hn => ?_, fun hsettled => ?_, fun e he more => ?_⟩
  · rw [perform_append]
    exact settled_perform_next hn
  · rw [takeAll_feed, takeAll_of_settled hsettled, List.append_nil]
  · rw [perform_append, perform_of_spent (spent_of_error_mem he), List.append_nil]

/-- A header that comes in two pieces, and a chunk whose head is no document. -/
def damagedCalls : List Call :=
  let header := headerBytes .json (.describe { streamKey := "a", chunkDuration := 1 } [])
  [.feed (header.take 3), .next, .feed (header.drop 3 ++ [1]), .next, .next, .feed [120, 0],
    .next, .feed [0], .next, .next]

/-- A header is given and then an error, and that is all. -/
theorem delivery_damagedCalls :
    Settled .json (perform .json {} damagedCalls).2 ∧
      perform .json {} damagedCalls = takeAll .json (feed {} (fed damagedCalls)) ∧
      .error .invalidHead ∈ (perform .json {} damagedCalls).1 ∧
      ∀ more, (perform .json {} (damagedCalls ++ more)).1 = (perform .json {} damagedCalls).1 := by
  obtain ⟨-, hwhole, herror⟩ := delivery .json damagedCalls
  have hsettled : Settled .json (perform .json {} damagedCalls).2 := by decide +kernel
  have hfailed : (perform .json {} damagedCalls).1.any
      (fun given => given matches .error .invalidHead) = true := by decide +kernel
  obtain ⟨given, hmem, hgiven⟩ := List.any_eq_true.mp hfailed
  obtain rfl : given = .error .invalidHead := by
    split at hgiven
    · rfl
    · cases hgiven
  exact ⟨hsettled, hwhole hsettled, hmem, herror .invalidHead hmem⟩

end RewindRelay.Loader
