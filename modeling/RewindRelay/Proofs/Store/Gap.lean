import RewindRelay.Proofs.Store.Catalog
import RewindRelay.Proofs.Store.Nearest
import RewindRelay.Stream.Listening
/-!
# Gaps that are too long to measure

A lookup by time takes the gap to the next chunk as a difference of 64-bit integers, and timestamps
can be further apart than any of these.  Then the lookup fails, and everything that depends on it.
That is the only way in which it can fail: here is the lookup once more as a machine does it, where
every position has to be there as well, and it is the same.

* `IsFar`, `Encloses` — a chunk that is too far away, and two chunks in a row around a timestamp.
* `Store.checkedIndex`, `Store.checkedIndex_eq` — the lookup, with every step checked.
* `Store.Overflows` — the gap to the next chunk is needed, and it does not fit.
* `Store.checkedIndex_filled` — **lookups by time fail exactly then**, for chunks and for listeners.
* `Store.edgeDistance_lt_of_isFar` — and then the older of the two chunks is the nearer one.
-/

namespace RewindRelay

open Chunk (Ascending)

/-! ## Machine words -/

/-- After a step that has not failed comes the next one. -/
@[simp] lemma Fault.ok_bind {α β : Type} (x : α) (f : α → Except Fault β) :
    (Except.ok x >>= f) = f x := rfl

@[simp] lemma Fault.pure_eq {α : Type} (x : α) : (pure x : Except Fault α) = .ok x := rfl

/-- A count without another one. -/
def subtract (m n : ℕ) : Except Fault ℕ := if n ≤ m then .ok (m - n) else .error .overflow

/-- The chunk starts too long after a timestamp for the time between them to fit. -/
def IsFar (ts : Int64) (c : Chunk) : Prop := 2 ^ 63 ≤ c.ts.toInt - ts.toInt

instance (ts : Int64) (c : Chunk) : Decidable (IsFar ts c) := inferInstanceAs (Decidable (_ ≤ _))

variable {ts : Int64} {a b c : Chunk}

lemma subtract_of_le {m n : ℕ} (h : n ≤ m) : subtract m n = .ok (m - n) := if_pos h

lemma timeBetween_of_isFar (h : IsFar ts c) : timeBetween ts c.ts = .error .overflow := by
  have hmax := Int64.toInt_maxValue
  unfold IsFar at h
  exact if_neg (by omega)

lemma timeBetween_of_not_isFar (hlt : ts < c.ts) (h : ¬ IsFar ts c) :
    timeBetween ts c.ts = .ok (c.ts - ts) := by
  have hless := Int64.lt_iff_toInt_lt.mp hlt
  unfold IsFar at h
  exact (timeBetween_of_fits (by omega) (by omega)).1

/-- Nothing is far from a timestamp that is not before the epoch. -/
lemma not_isFar_of_nonneg (h : 0 ≤ ts) : ¬ IsFar ts c := by
  have hts := Int64.le_iff_toInt_le.mp h
  have hlast := Int64.toInt_lt c.ts
  rw [Int64.toInt_zero] at hts
  unfold IsFar
  omega

/-! ## Around a timestamp -/

/-- Two chunks in a row, the first of which has started at a timestamp and the second has not. -/
structure Encloses (cs : List Chunk) (ts : Int64) (a b : Chunk) : Prop where
  adjacent : [a, b] <:+: cs
  started : a.ts ≤ ts
  ahead : ts < b.ts

/-- They are the two that a lookup compares. -/
lemma Splits.encloses_iff {cs older newer : List Chunk} (h : Splits cs ts older newer)
    (hasc : Ascending cs) :
    Encloses cs ts a b ↔ older.getLast? = some a ∧ newer.head? = some b := by
  constructor
  · rintro ⟨⟨front, rest, hcs⟩, hstarted, hahead⟩
    rw [← hcs, List.append_assoc, List.cons_append, List.cons_append, List.nil_append] at hasc
    obtain ⟨-, hlater, hfront⟩ := Chunk.ascending_append.mp hasc
    obtain ⟨-, hlater⟩ := Chunk.ascending_cons.mp hlater
    obtain ⟨hrest, -⟩ := Chunk.ascending_cons.mp hlater
    have hsplits : Splits cs ts (front ++ [a]) (b :: rest) := by
      refine ⟨by rw [← hcs]; simp, ?_, ?_⟩
      · intro x hx
        rcases List.mem_append.mp hx with hx | hx
        · exact Int64.le_trans (Int64.le_of_lt (hfront x hx a List.mem_cons_self)) hstarted
        · rwa [List.mem_singleton.mp hx]
      · intro x hx
        rcases List.mem_cons.mp hx with rfl | hx
        · exact hahead
        · exact Int64.lt_trans hahead (hrest x hx)
    rw [← h.takeWhile_eq, ← h.dropWhile_eq, hsplits.takeWhile_eq, hsplits.dropWhile_eq]
    exact ⟨List.getLast?_concat, rfl⟩
  · rintro ⟨hlast, hfirst⟩
    obtain ⟨front, rfl⟩ := List.getLast?_eq_some_iff.mp hlast
    obtain ⟨rest, rfl⟩ := List.head?_eq_some_iff.mp hfirst
    refine ⟨⟨front, rest, ?_⟩, h.started a (by simp), h.ahead b (by simp)⟩
    rw [← h.append]
    simp

/-! ## Lookup -/

namespace Store

/-- The chunk at a position. -/
def chunkAt (s : Store) (i : ℕ) : Except Fault Chunk :=
  match s.chunks[i]? with
  | some c => .ok c
  | none => .error .outOfRange

/-- The lookup by time, with every step checked. -/
def checkedIndex (s : Store) (ts : Int64) : Except Fault (Option ℕ) :=
  let after := s.indexAfter ts
  if s.length = 0 then .ok none
  else if after = 0 then .ok (some 0)
  else do
    let before ← subtract after 1
    let older ← s.chunkAt before
    if older.covers ts ∨ after = s.length then
      return some before
    else
      let newer ← s.chunkAt after
      let gap ← timeBetween ts newer.ts
      if Decimal.ofInt gap.toInt < Decimal.ofInt ts.toInt - older.stop then
        return some after
      else
        return some before

/-- The gap to the next chunk is needed, and it does not fit. -/
def Overflows (s : Store) (ts : Int64) : Prop :=
  ∃ a b, Encloses s.chunks ts a b ∧ a.covers ts = false ∧ IsFar ts b

variable {s : Store} {older newer front rest : List Chunk}

lemma indexOfTimestamp?_between (h : Splits s.chunks ts (front ++ [a]) (b :: rest)) :
    s.indexOfTimestamp? ts =
      if a.covers ts then .ok (some front.length)
      else (timeBetween ts b.ts).map fun gap =>
        if Decimal.ofInt gap.toInt < Decimal.ofInt ts.toInt - a.stop then some (front.length + 1)
        else some front.length := by
  have hindex : s.indexOfTimestamp? ts = _ := h.nearest_eq .double (fun _ => rfl)
  rw [hindex, List.getLast?_concat, List.head?_cons, List.length_append, List.length_singleton,
    Nat.add_sub_cancel]
  simp only [Arithmetic.double, decide_eq_true_eq]
  cases timeBetween ts b.ts <;> rfl

lemma checkedIndex_between (h : Splits s.chunks ts (front ++ [a]) (b :: rest)) :
    s.checkedIndex ts =
      if a.covers ts then .ok (some front.length)
      else (timeBetween ts b.ts).map fun gap =>
        if Decimal.ofInt gap.toInt < Decimal.ofInt ts.toInt - a.stop then some (front.length + 1)
        else some front.length := by
  have hbefore : s.chunkAt front.length = .ok a := by simp [chunkAt, ← h.append]
  have hafter : s.chunkAt (front.length + 1) = .ok b := by simp [chunkAt, ← h.append]
  have hsub : subtract (front.length + 1) 1 = .ok front.length := subtract_of_le (by omega)
  have hlen : s.length = front.length + 1 + (rest.length + 1) := by
    rw [length, ← h.append, List.length_append, List.length_append]
    rfl
  have hinside : ¬ front.length + 1 = s.length := by omega
  have hne : ¬ s.length = 0 := by omega
  unfold checkedIndex
  rw [h.indexAfter_eq, List.length_append, List.length_singleton, if_neg hne,
    if_neg (Nat.succ_ne_zero _), hsub]
  cases hcovers : a.covers ts with
  | true => simp [hbefore, hcovers]
  | false =>
      simp only [hbefore, hafter, hcovers, hinside, Fault.ok_bind, Bool.false_eq_true, or_false,
        if_false]
      cases timeBetween ts b.ts with
      | error e => rfl
      | ok gap =>
          simp only [Fault.ok_bind, Fault.pure_eq, Except.map]
          split <;> rfl

/-- **Every position is there.**  The lookup with every step checked is the lookup. -/
lemma checkedIndex_eq (h : Splits s.chunks ts older newer) :
    s.checkedIndex ts = s.indexOfTimestamp? ts := by
  have hindex : s.indexOfTimestamp? ts = _ := h.nearest_eq .double (fun _ => rfl)
  have hlen : s.length = older.length + newer.length := by
    rw [length, ← h.append, List.length_append]
  cases hlast : older.getLast? with
  | none =>
      obtain rfl := List.getLast?_eq_none_iff.mp hlast
      rw [checkedIndex, h.indexAfter_eq, hlen, hindex]
      cases newer <;> simp
  | some a =>
      obtain ⟨front, rfl⟩ := List.getLast?_eq_some_iff.mp hlast
      cases newer with
      | nil =>
          have hbefore : s.chunkAt front.length = .ok a := by simp [chunkAt, ← h.append]
          have hsub : subtract (front.length + 1) 1 = .ok front.length := subtract_of_le (by omega)
          rw [checkedIndex, h.indexAfter_eq, hlen, hindex]
          simp [hbefore, hsub]
      | cons b rest => rw [checkedIndex_between h, indexOfTimestamp?_between h]

/-- The lookup fails where the gap to the next chunk is needed and does not fit, nowhere else. -/
lemma indexOfTimestamp?_spec (h : Ascending s.chunks) (ts : Int64) :
    s.Overflows ts ∧ s.indexOfTimestamp? ts = .error .overflow ∨
      ¬ s.Overflows ts ∧ ∃ position, s.indexOfTimestamp? ts = .ok position := by
  have hsplits := h.splits ts
  have hoverflows : s.Overflows ts ↔ _ :=
    exists_congr fun a => exists_congr fun b => and_congr_left fun _ => hsplits.encloses_iff h
  rw [hoverflows]
  generalize s.chunks.takeWhile (fun c => c.ts ≤ ts) = older at hsplits ⊢
  generalize s.chunks.dropWhile (fun c => c.ts ≤ ts) = newer at hsplits ⊢
  have hindex : s.indexOfTimestamp? ts = _ := hsplits.nearest_eq .double (fun _ => rfl)
  cases hlast : older.getLast? with
  | none =>
      refine Or.inr ⟨by simp, ?_⟩
      rw [hindex, hlast]
      cases newer.head? <;> exact ⟨_, rfl⟩
  | some a =>
      cases newer with
      | nil =>
          refine Or.inr ⟨by simp, ?_⟩
          rw [hindex, hlast]
          exact ⟨_, rfl⟩
      | cons b rest =>
          obtain ⟨front, rfl⟩ := List.getLast?_eq_some_iff.mp hlast
          have hahead : ts < b.ts := hsplits.ahead b List.mem_cons_self
          rw [indexOfTimestamp?_between hsplits]
          cases hcovers : a.covers ts with
          | true => exact Or.inr ⟨by simp [hcovers], _, if_pos rfl⟩
          | false =>
              by_cases hfar : IsFar ts b
              · refine Or.inl ⟨⟨a, b, ⟨rfl, rfl⟩, hcovers, hfar⟩, ?_⟩
                rw [timeBetween_of_isFar hfar]
                rfl
              · refine Or.inr ⟨by simp [hfar], ?_⟩
                rw [timeBetween_of_not_isFar hahead hfar]
                exact ⟨_, rfl⟩

/-! ## All lookups by time -/

/-- Whatever is asked by time is answered with this error. -/
structure FailsAt (s : Store) (ts : Int64) (e : Fault) : Prop where
  index : s.indexOfTimestamp? ts = .error e
  chunk : s.at? (.timestamp ts) = .error e
  range : ∀ n, s.range (.timestamp ts) n = .error e
  offset : s.offsetOfTimestamp? ts = .error e
  /-- A listener cannot start there. -/
  listener : ∀ (stream : Stream) (o : ListenOptions), stream.store = s → o.timestamp = some ts →
    stream.seatOffset o = .error e

/-- Whatever is asked by time has an answer. -/
structure AnswersAt (s : Store) (ts : Int64) : Prop where
  index : ∃ position, s.indexOfTimestamp? ts = .ok position
  chunk : ∃ c, s.at? (.timestamp ts) = .ok c
  range : ∀ n, ∃ cs, s.range (.timestamp ts) n = .ok cs
  offset : ∃ k, s.offsetOfTimestamp? ts = .ok k
  listener : ∀ (stream : Stream) (o : ListenOptions), stream.store = s → o.timestamp = some ts →
    ∃ k, stream.seatOffset o = .ok k

lemma failsAt_of_index {e : Fault} (h : s.indexOfTimestamp? ts = .error e) : s.FailsAt ts e where
  index := h
  chunk := by simp only [at?, resolve?, h, Fault.map_error]
  range := fun n => by simp only [Store.range, resolve?, h, Fault.map_error]
  offset := by simp only [offsetOfTimestamp?, h, Fault.map_error]
  listener := by
    rintro stream o rfl hts
    simp only [Stream.seatOffset, hts, offsetOfTimestamp?, h, Fault.map_error]

lemma answersAt_of_index {position : Option ℕ} (h : s.indexOfTimestamp? ts = .ok position) :
    s.AnswersAt ts where
  index := ⟨_, h⟩
  chunk := by
    simp only [at?, resolve?, h, Fault.map_ok]
    exact ⟨_, rfl⟩
  range := by
    simp only [Store.range, resolve?, h, Fault.map_ok]
    exact fun n => ⟨_, rfl⟩
  offset := by
    simp only [offsetOfTimestamp?, h, Fault.map_ok]
    exact ⟨_, rfl⟩
  listener := by
    rintro stream o rfl hts
    simp only [Stream.seatOffset, hts, offsetOfTimestamp?, h, Fault.map_ok]
    exact ⟨_, rfl⟩

/-- All lookups by time fail where the gap to the next chunk is needed and does not fit, and have an
answer everywhere else. -/
lemma answers_of_ascending (h : Ascending s.chunks) (ts : Int64) :
    (s.Overflows ts → s.FailsAt ts .overflow) ∧ (¬ s.Overflows ts → s.AnswersAt ts) := by
  rcases indexOfTimestamp?_spec h ts with ⟨hover, hfault⟩ | ⟨hfits, position, hfound⟩
  · exact ⟨fun _ => failsAt_of_index hfault, fun hfits => absurd hover hfits⟩
  · exact ⟨fun hover => absurd hover hfits, fun _ => answersAt_of_index hfound⟩

/-- **Where a lookup fails.**  Whatever chunks a new store is offered, a lookup by time finds every
position that it needs.  It fails, and all that rests on it, where a timestamp is not covered and
the next chunk is 2⁶³ milliseconds away or more; everywhere else it has an answer. -/
theorem checkedIndex_filled (capacity : ℕ) (chunks : List Chunk) (ts : Int64) :
    (filled capacity chunks).2.checkedIndex ts = (filled capacity chunks).2.indexOfTimestamp? ts ∧
      ((filled capacity chunks).2.Overflows ts →
        (filled capacity chunks).2.FailsAt ts .overflow) ∧
      (¬ (filled capacity chunks).2.Overflows ts → (filled capacity chunks).2.AnswersAt ts) := by
  have hasc : Ascending (filled capacity chunks).2.chunks :=
    (refines_catalog capacity (chunks.map .insert)).ascending
  exact ⟨checkedIndex_eq (hasc.splits ts), answers_of_ascending hasc ts⟩

/-- The first and the last millisecond that a timestamp can name. -/
def farApart : List Chunk :=
  [⟨Int64.minValue, 1000, [0], none⟩, ⟨Int64.maxValue, 1000, [1], none⟩]

/-- Shortly after the first one the lookup fails. -/
theorem not_forall_checkedIndex_filled :
    ¬ ∀ (capacity : ℕ) (chunks : List Chunk) (ts : Int64), ∃ i,
      (filled capacity chunks).2.checkedIndex ts = .ok i := by
  intro h
  obtain ⟨i, hi⟩ := h 2 farApart (-9000000000000000000)
  have hfault : (filled 2 farApart).2.checkedIndex (-9000000000000000000) = .error .overflow := by
    decide +kernel
  rw [hfault] at hi
  cases hi

/-! ## The chunk that would be wanted -/

/-- **The older chunk is nearer.**  Where the gap to the newer one is too long to be taken, that to
the older one is shorter. -/
theorem edgeDistance_lt_of_isFar (h : Encloses s.chunks ts a b) (hfar : IsFar ts b)
    (hb : 0 ≤ b.exactWindow.duration) : a.edgeDistance ts < b.edgeDistance ts := by
  have hstarted : a.starts ≤ moment ts := moment_le_iff.mpr h.started
  have hgap : (2 : ℚ) ^ 63 ≤ b.starts - moment ts := by
    have hcast : ((2 ^ 63 : ℤ) : ℚ) ≤ ((b.ts.toInt - ts.toInt : ℤ) : ℚ) := Int.cast_le.mpr hfar
    push_cast at hcast
    exact hcast
  have hnear : moment ts - a.starts < 2 ^ 63 := by
    have hlow := Int64.le_toInt a.ts
    have hhigh := Int64.toInt_lt b.ts
    have hint : ts.toInt - a.ts.toInt < 2 ^ 63 := by
      unfold IsFar at hfar
      omega
    have hcast : ((ts.toInt - a.ts.toInt : ℤ) : ℚ) < ((2 ^ 63 : ℤ) : ℚ) := Int.cast_lt.mpr hint
    push_cast at hcast
    exact hcast
  have hends : b.starts ≤ b.ends := le_add_of_nonneg_right hb
  calc a.edgeDistance ts ≤ |moment ts - a.starts| := min_le_left _ _
    _ = moment ts - a.starts := abs_of_nonneg (sub_nonneg.mpr hstarted)
    _ < b.starts - moment ts := hnear.trans_le hgap
    _ ≤ b.edgeDistance ts := by
      rw [Chunk.edgeDistance, abs_sub_comm, abs_sub_comm (moment ts) b.ends]
      exact le_min (le_abs_self _) ((sub_le_sub_right hends _).trans (le_abs_self _))

end Store

end RewindRelay
