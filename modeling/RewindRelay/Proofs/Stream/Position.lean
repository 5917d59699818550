import RewindRelay.Proofs.Store.Gap
import RewindRelay.Proofs.Stream.Slice
/-!
# Positions counted from the newest chunk

A query counts chunks back from the newest one, the store counts them on from the oldest, and both
the stream and the store clamp what they are asked for.  Here are the queries of a store once more
as a machine answers them, in counts of 64 bits: every difference has to be a count, every sum
stops at the largest count, and every slice has to lie inside the store.  None of this ever fails.
Whatever offset is asked for there is an answer, read off the list of chunks; and a moment has one
unless the gap to the next chunk is too long to be taken.

* `Store.checkedAt`, `Store.checkedRange`, `Store.checkedOffset`, `Stream.checkedBehind` — the
  queries in machine words.
* `Store.behind_eq` — a range is the chunks from an offset on.
* `Store.resolve?_of_offsetOfTimestamp?` — a moment and its offset mean the same position.
* `Store.Reachable` — what a new store can become, and `Broadcast.Reachable.store_reachable`: the
  store of every stream in use.
* `Store.Reachable.positions` — **queries agree with the list of chunks, and with each other.**
-/

namespace RewindRelay

open Chunk (Ascending)
open Decimal (maxCount)

/-! ## Queries in machine words -/

/-- The sum of two counts, or the largest count if it is larger. -/
def saturatingAdd (m n : ℕ) : ℕ := min maxCount (m + n)

namespace Store

/-- The position a query means. -/
def checkedResolve (s : Store) : Query → Except Fault (Option ℕ)
  | .offset k =>
    if s.length = 0 then .ok none
    else do
      let newest ← subtract s.length 1
      let index ← subtract newest (min k newest)
      return some index
  | .timestamp ts => s.checkedIndex ts

def checkedAt (s : Store) (q : Query) : Except Fault (Option Chunk) := do
  let index ← s.checkedResolve q
  return index.bind fun i => s.chunks[i]?

/-- The chunks from one position up to another, if that lies inside the store. -/
def checkedSlice (s : Store) (first last : ℕ) : Except Fault (List Chunk) :=
  match s.slice? first last with
  | some cs => .ok cs
  | none => .error .outOfRange

def checkedRange (s : Store) (q : Query) (n : ℕ) : Except Fault (List Chunk) := do
  match ← s.checkedResolve q with
  | some first => s.checkedSlice first (min (saturatingAdd first n) s.length)
  | none => return []

def checkedOffset (s : Store) (ts : Int64) : Except Fault (Option ℕ) := do
  match ← s.checkedIndex ts with
  | some index => do
    let newest ← subtract s.length 1
    let k ← subtract newest index
    return some k
  | none => return none

end Store

/-- The chunks behind live. -/
def Stream.checkedBehind (s : Stream) (k n : ℕ) : Except Fault (List Chunk) :=
  if k = 0 ∨ n = 0 then .ok [] else s.store.checkedRange (.offset (s.clampOffset k)) n

/-! ## What they answer -/

/-- A sum that is clipped to a count does not notice that it has stopped. -/
lemma min_saturatingAdd {m n len : ℕ} (h : len ≤ maxCount) :
    min (saturatingAdd m n) len = min (m + n) len := by
  unfold saturatingAdd
  omega

namespace Store

variable {s : Store} {q : Query} {ts : Int64}

lemma indexBehind?_eq (h : s.length ≠ 0) (k : ℕ) :
    s.indexBehind? k = some (s.length - 1 - min k (s.length - 1)) := by
  rw [indexBehind?, if_neg h, Option.some_inj]
  omega

lemma checkedResolve_offset (s : Store) (k : ℕ) :
    s.checkedResolve (.offset k) = s.resolve? (.offset k) := by
  by_cases hempty : s.length = 0
  · simp only [checkedResolve, resolve?, indexBehind?, hempty, if_true]
  · have hnewest : subtract s.length 1 = .ok (s.length - 1) := subtract_of_le (by omega)
    have hindex := subtract_of_le (Nat.min_le_right k (s.length - 1))
    rw [resolve?, indexBehind?_eq hempty, checkedResolve, if_neg hempty, hnewest, Fault.ok_bind,
      hindex]
    rfl

lemma checkedAt_eq (h : s.checkedResolve q = s.resolve? q) : s.checkedAt q = s.at? q := by
  rw [checkedAt, at?, h]
  cases s.resolve? q <;> rfl

lemma checkedRange_eq (hlen : s.length ≤ maxCount) (h : s.checkedResolve q = s.resolve? q)
    (n : ℕ) : s.checkedRange q n = s.range q n := by
  rw [checkedRange, range, h]
  cases hposition : s.resolve? q with
  | error e => rfl
  | ok position =>
      cases position with
      | none => rfl
      | some first =>
          have hinside := s.lt_of_resolve? hposition
          have hslice : s.slice? first (min (first + n) s.length) = some _ :=
            s.slice?_eq (by omega) (Nat.min_le_right _ _)
          simp only [checkedSlice, onward, min_saturatingAdd hlen, hslice, Fault.ok_bind,
            Fault.map_ok]

lemma checkedOffset_eq (h : s.checkedIndex ts = s.indexOfTimestamp? ts) :
    s.checkedOffset ts = s.offsetOfTimestamp? ts := by
  rw [checkedOffset, offsetOfTimestamp?, h]
  cases hindex : s.indexOfTimestamp? ts with
  | error e => rfl
  | ok position =>
      cases position with
      | none => rfl
      | some i =>
          have hinside := s.lt_of_indexOfTimestamp? hindex
          have hnewest : subtract s.length 1 = .ok (s.length - 1) := subtract_of_le (by omega)
          have hoffset : subtract (s.length - 1) i = .ok _ := subtract_of_le (by omega)
          simp only [hnewest, hoffset, Fault.ok_bind, Fault.pure_eq, Fault.map_ok, Option.map_some]

/-! ## By offset -/

variable (s)

lemma range_offset (k n : ℕ) : s.range (.offset k) n = .ok (s.behind k n) := rfl

lemma at?_offset_eq (h : s.chunks ≠ []) (k : ℕ) :
    ∃ c, s.chunks[s.length - 1 - min k (s.length - 1)]? = some c ∧
      s.at? (.offset k) = .ok (some c) := by
  have hpos : 0 < s.length := List.length_pos_iff.mpr h
  have hinside : s.length - 1 - min k (s.length - 1) < s.length := by omega
  have hfound := List.getElem?_eq_getElem hinside
  refine ⟨_, hfound, ?_⟩
  rw [at?, resolve?, indexBehind?_eq hpos.ne', Fault.map_ok, Option.bind_some, hfound]

/-- A range is the chunks from an offset on, as many as are asked for. -/
lemma behind_eq (k n : ℕ) :
    s.behind k n = (s.chunks.drop (s.length - 1 - min k (s.length - 1))).take n := by
  by_cases hempty : s.length = 0
  · have hnil : s.chunks = [] := List.length_eq_zero_iff.mp hempty
    simp only [behind, onward, indexBehind?, hempty, if_true, hnil, List.drop_nil, List.take_nil]
  · simp only [behind, onward, indexBehind?_eq hempty, slice, List.drop_take]
    rw [List.take_eq_take_iff, List.length_drop, length]
    omega

lemma length_onward_le (position : Option ℕ) (n : ℕ) : (s.onward position n).length ≤ n := by
  unfold onward
  split
  · rw [slice, List.length_drop, List.length_take]
    omega
  · exact Nat.zero_le _

lemma length_range_le {n : ℕ} {cs : List Chunk} (h : s.range q n = .ok cs) : cs.length ≤ n := by
  obtain ⟨position, -, rfl⟩ := Fault.map_eq_ok_iff.mp h
  exact s.length_onward_le position n

/-- Offsets that go back equally far, as far as the store reaches. -/
lemma behind_congr {j k : ℕ} (h : s.length - 1 - j = s.length - 1 - k) (n : ℕ) :
    s.behind j n = s.behind k n := by
  simp only [behind, indexBehind?, h]

/-! ## By time -/

/-- An empty store has nothing, whatever is asked for. -/
lemma indexOfTimestamp?_of_nil (h : s.chunks = []) (ts : Int64) :
    s.indexOfTimestamp? ts = .ok none := by
  rw [indexOfTimestamp?, h]
  rfl

lemma at?_of_nil (h : s.chunks = []) (q : Query) : s.at? q = .ok none := by
  cases q with
  | offset k => simp only [at?, resolve?, indexBehind?, length, h, List.length_nil]; rfl
  | timestamp ts => rw [at?, resolve?, s.indexOfTimestamp?_of_nil h ts]; rfl

lemma offsetOfTimestamp?_eq_none_iff (ts : Int64) :
    s.offsetOfTimestamp? ts = .ok none ↔ s.chunks = [] := by
  constructor
  · intro h
    obtain ⟨position, hindex, hnone⟩ := Fault.map_eq_ok_iff.mp h
    rw [Option.map_eq_none_iff] at hnone
    subst hnone
    exact List.map_eq_nil_iff.mp (eq_nil_of_nearest hindex)
  · intro h
    rw [offsetOfTimestamp?, s.indexOfTimestamp?_of_nil h ts]
    rfl

/-- A moment and the offset of the chunk that fits it best mean the same position. -/
lemma resolve?_of_offsetOfTimestamp? {ts : Int64} {k : ℕ}
    (h : s.offsetOfTimestamp? ts = .ok (some k)) :
    k < s.length ∧ s.resolve? (.timestamp ts) = s.resolve? (.offset k) := by
  obtain ⟨position, hindex, hsome⟩ := Fault.map_eq_ok_iff.mp h
  obtain ⟨i, rfl, rfl⟩ := Option.map_eq_some_iff.mp hsome
  have hinside := s.lt_of_indexOfTimestamp? hindex
  have hoffset : s.length - 1 - (s.length - 1 - i) = i := by omega
  have hne : s.length ≠ 0 := by omega
  refine ⟨by omega, ?_⟩
  simp only [resolve?, indexBehind?, hindex, hoffset, if_neg hne]

/-- A moment, and the offset of the chunk that fits it best. -/
lemma map_behind_offsetOfTimestamp? (ts : Int64) (n : ℕ) :
    ((s.offsetOfTimestamp? ts).map fun k => s.behind (k.getD 0) n) =
      s.range (.timestamp ts) n := by
  cases hk : s.offsetOfTimestamp? ts with
  | error e =>
      have hindex : s.indexOfTimestamp? ts = .error e := Fault.map_eq_error_iff.mp hk
      simp only [range, resolve?, hindex, Fault.map_error]
  | ok k =>
      cases k with
      | none =>
          have hnil := (s.offsetOfTimestamp?_eq_none_iff ts).mp hk
          have hempty : s.length = 0 := by rw [length, hnil, List.length_nil]
          simp only [range, resolve?, s.indexOfTimestamp?_of_nil hnil ts, behind, indexBehind?,
            hempty, if_true, Fault.map_ok]
      | some k => simp only [range, (s.resolve?_of_offsetOfTimestamp? hk).2]; rfl

end Store

/-! ## Behind live -/

namespace Stream

variable (s : Stream)

lemma behind_clampOffset (k n : ℕ) :
    s.store.behind (s.clampOffset k) n = s.store.behind k n := by
  refine s.store.behind_congr ?_ n
  rw [clampOffset]
  omega

lemma chunksBehind_eq (k n : ℕ) :
    s.chunksBehind k n = if k = 0 ∨ n = 0 then [] else s.store.behind k n := by
  rw [chunksBehind, behind_clampOffset]

lemma chunksBehind_of_ne {k n : ℕ} (hk : k ≠ 0) (hn : n ≠ 0) :
    s.chunksBehind k n = s.store.behind k n := by
  rw [chunksBehind_eq, if_neg (not_or.mpr ⟨hk, hn⟩)]

lemma chunksBehind_zero (k : ℕ) : s.chunksBehind k 0 = [] := if_pos (Or.inr rfl)

lemma length_chunksBehind_le (k n : ℕ) : (s.chunksBehind k n).length ≤ n := by
  unfold chunksBehind
  split
  · exact Nat.zero_le _
  · exact s.store.length_onward_le _ _

lemma checkedBehind_eq (hlen : s.store.length ≤ maxCount) (k n : ℕ) :
    s.checkedBehind k n = .ok (s.chunksBehind k n) := by
  unfold checkedBehind chunksBehind
  split_ifs
  · rfl
  · exact Store.checkedRange_eq hlen (s.store.checkedResolve_offset _) n

end Stream

/-! ## Stores in use -/

namespace Store

/-- What a new store can become. -/
inductive Reachable : Store → Prop
  | empty {capacity : ℕ} (h : capacity ≤ maxCount) : Reachable (.empty capacity)
  | insert {s : Store} (c : Chunk) : Reachable s → Reachable (s.insert c).2
  | setCapacity {s : Store} {capacity : ℕ} (h : capacity ≤ maxCount) :
    Reachable s → Reachable (s.setCapacity capacity)
  | clear {s : Store} : Reachable s → Reachable s.clear

variable {s : Store}

lemma Reachable.ascending (h : s.Reachable) : Ascending s.chunks := by
  induction h with
  | empty _ => exact Chunk.ascending_nil
  | insert c _ ih => exact ascending_insert ih c
  | setCapacity _ _ ih => exact ih.rtake _
  | clear _ _ => exact Chunk.ascending_nil

lemma Reachable.length_le (h : s.Reachable) : s.length ≤ s.capacity ∧ s.capacity ≤ maxCount := by
  induction h with
  | empty h => exact ⟨Nat.zero_le _, h⟩
  | insert c _ ih =>
      rw [capacity_insert]
      exact ⟨length_insert_le ih.1 c, ih.2⟩
  | setCapacity h _ _ => exact ⟨length_rtake_le _ _, h⟩
  | clear _ ih => exact ⟨Nat.zero_le _, ih.2⟩

end Store

lemma Decimal.nearestCount_le (x : Float) : nearestCount x ≤ maxCount := by
  unfold nearestCount
  split
  · exact Nat.zero_le _
  · split
    · exact Nat.zero_le _
    · exact le_rfl
  · split
    · exact Nat.zero_le _
    · exact Nat.min_le_left _ _

namespace Stream

lemma lengthBound_le (window : Float) (vitals : Option Vitals) :
    lengthBound window vitals ≤ maxCount :=
  max_le (by decide) (Decimal.nearestCount_le _)

variable {s : Stream}

lemma store_reachable_adjust (h : s.store.Reachable) : s.adjust.store.Reachable :=
  .setCapacity (lengthBound_le _ _) h

lemma store_reachable_push (h : s.store.Reachable) (c : Chunk) : (s.push c).2.store.Reachable := by
  rcases s.push_cases c with ⟨-, heq⟩ | ⟨-, -, heq⟩ | ⟨-, -, heq⟩ <;> rw [heq]
  · exact h
  · exact .insert c h
  · exact .insert c h

lemma store_reachable_updateVitals (h : s.store.Reachable) (v : Vitals) :
    (s.updateVitals v).2.store.Reachable := by
  rcases s.updateVitals_cases v with ⟨-, heq⟩ | ⟨-, -, heq⟩ | ⟨-, -, heq⟩ <;> rw [heq]
  · exact h
  · exact .setCapacity (lengthBound_le _ _) h
  · exact .setCapacity (lengthBound_le _ _) h.clear

lemma store_reachable_apply (h : s.store.Reachable) (op : Operation) :
    (op.apply s).store.Reachable := by
  cases op with
  | push c => exact store_reachable_push h c
  | updateVitals v => exact store_reachable_updateVitals h v
  | setWindow seconds => exact .setCapacity (lengthBound_le _ _) h
  | adjust => exact store_reachable_adjust h
  | reset => exact h.clear
  | destroy =>
      simp only [Operation.apply, destroy]
      split
      · exact h
      · exact h.clear
  | join options readSize => exact h
  | serve id a => rwa [Operation.apply, store_act]
  | drop id =>
      have hstore : (Operation.apply s (.drop id)).store = s.store := s.store_act id .leave
      rwa [hstore]
  | reports => exact h
  | disconnectSlow maxBytes => exact h

lemma store_reachable_stepPreload (h : s.store.Reachable) (C : Codec) (p : Preload)
    (a : PreloadAction) : (s.stepPreload C p a).2.store.Reachable := by
  have hspec := stepPreload_spec C s p a
  generalize s.stepPreload C p a = result at hspec
  cases hspec with
  | waits loader same => exact h
  | header hd loader decoded usable => exact store_reachable_updateVitals h hd.vitals
  | chunk c loader summary decoded alive same => exact .insert c h
  | ends => exact h

end Stream

namespace Broadcast

lemma store_reachable_step {b : Broadcast} (h : b.stream.store.Reachable) (C : Codec)
    (event : Event) : (b.step C event).stream.store.Reachable := by
  cases event with
  | operate op => exact Stream.store_reachable_apply h op
  | start => exact h.clear
  | preload id a =>
      simp only [step]
      split
      · exact Stream.store_reachable_stepPreload h C _ a
      · exact h

/-- **The store of every stream in use** comes about by inserting chunks, changing the capacity and
clearing. -/
theorem Reachable.store_reachable {C : Codec} {b : Broadcast} (h : Reachable C b) :
    b.stream.store.Reachable := by
  induction h with
  | new name windowSeconds readSize => exact Stream.store_reachable_adjust (.empty le_rfl)
  | step event _ ih => exact store_reachable_step ih C event

end Broadcast

/-! ## Positions -/

namespace Store

/-- What a store answers when it is asked for positions. -/
structure Positions (s : Store) : Prop where
  /-- An empty store has nothing. -/
  at_nil : s.chunks = [] → ∀ q, s.at? q = .ok none
  /-- Every other store counts back from its newest chunk, and stops at its oldest one. -/
  at_offset : s.chunks ≠ [] → ∀ k, ∃ c,
    s.chunks[s.length - 1 - min k (s.length - 1)]? = some c ∧ s.at? (.offset k) = .ok (some c)
  range_offset : ∀ k n,
    s.range (.offset k) n = .ok ((s.chunks.drop (s.length - 1 - min k (s.length - 1))).take n)
  /-- By offset no step fails in machine words. -/
  offset_checked : ∀ k n, s.checkedAt (.offset k) = s.at? (.offset k) ∧
    s.checkedRange (.offset k) n = s.range (.offset k) n
  timestamp_nil : ∀ ts, s.offsetOfTimestamp? ts = .ok none ↔ s.chunks = []
  /-- A moment is asked for by its offset just as well. -/
  timestamp : ∀ ts k, s.offsetOfTimestamp? ts = .ok (some k) →
    k < s.length ∧ s.at? (.timestamp ts) = s.at? (.offset k) ∧
      ∀ n, s.range (.timestamp ts) n = s.range (.offset k) n
  /-- By time the only step that can fail is the gap to the next chunk, -/
  timestamp_checked : ∀ ts, s.checkedOffset ts = s.offsetOfTimestamp? ts ∧
    s.checkedAt (.timestamp ts) = s.at? (.timestamp ts) ∧
      ∀ n, s.checkedRange (.timestamp ts) n = s.range (.timestamp ts) n
  /-- which fails where it is needed and does not fit. -/
  timestamp_answers : ∀ ts, (s.Overflows ts → s.FailsAt ts .overflow) ∧
    (¬ s.Overflows ts → s.AnswersAt ts)

variable {s : Store}

lemma positions_of_ascending (hasc : Ascending s.chunks) (hlen : s.length ≤ maxCount) :
    s.Positions where
  at_nil := s.at?_of_nil
  at_offset := s.at?_offset_eq
  range_offset := fun k n => by rw [range_offset, behind_eq]
  offset_checked := by
    intro k n
    have hresolve := s.checkedResolve_offset k
    exact ⟨checkedAt_eq hresolve, checkedRange_eq hlen hresolve n⟩
  timestamp_nil := s.offsetOfTimestamp?_eq_none_iff
  timestamp := by
    intro ts k hk
    obtain ⟨hinside, hsame⟩ := s.resolve?_of_offsetOfTimestamp? hk
    refine ⟨hinside, by simp only [at?, hsame], ?_⟩
    intro n
    simp only [range, hsame]
  timestamp_checked := by
    intro ts
    have hindex := checkedIndex_eq (hasc.splits ts)
    exact ⟨checkedOffset_eq hindex, checkedAt_eq hindex, checkedRange_eq hlen hindex⟩
  timestamp_answers := answers_of_ascending hasc

/-- **Queries agree with the list of chunks, and with each other.**  In every store that is in use
an offset counts back from the newest chunk and a range goes on from there, and neither fails.  A
moment means what its offset means, where it can be looked up.  A stream answers with such a range,
and with nothing for an offset or a length of zero. -/
theorem Reachable.positions (h : s.Reachable) :
    s.Positions ∧ ∀ stream : Stream, stream.store = s → ∀ k n,
      stream.checkedBehind k n = .ok (stream.chunksBehind k n) ∧
        .ok (stream.chunksBehind k n) =
          if k = 0 ∨ n = 0 then .ok [] else s.range (.offset k) n := by
  have hlen := h.length_le.1.trans h.length_le.2
  refine ⟨positions_of_ascending h.ascending hlen, ?_⟩
  rintro stream rfl k n
  refine ⟨stream.checkedBehind_eq hlen k n, ?_⟩
  rw [stream.chunksBehind_eq k n, range_offset, apply_ite Except.ok]

/-- Three chunks, for two of which there is room. -/
def lately : Store :=
  (((Store.empty 2).insert ⟨0, 1000, [0], none⟩).2.insert ⟨1000, 1000, [1], none⟩).2.insert
    ⟨2000, 1000, [2], none⟩ |>.2

/-- However far back and however much is asked for, there are two. -/
theorem positions_lately :
    (lately.range (.offset maxCount) maxCount).map (List.map Chunk.ts) = .ok [1000, 2000] ∧
      lately.Positions ∧ ∀ stream : Stream, stream.store = lately → ∀ k n,
        stream.checkedBehind k n = .ok (stream.chunksBehind k n) ∧
          .ok (stream.chunksBehind k n) =
            if k = 0 ∨ n = 0 then .ok [] else lately.range (.offset k) n :=
  ⟨by decide +kernel, Reachable.positions (.insert _ (.insert _ (.insert _ (.empty (by decide)))))⟩

end Store

end RewindRelay
