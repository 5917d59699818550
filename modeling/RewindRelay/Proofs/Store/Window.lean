import RewindRelay.Proofs.Store.Catalog
/-!
# The newest chunks of a history

A store that is full gives up its oldest chunk for each one it takes, at whichever end that one
goes in.  So if all chunks of a history were in order when they came, each before all others or
behind them, then it holds the newest of the history, as many as it may, no matter which end grew
first.  A chunk that is too old to stay is stored all the same and leaves at once.

* `Store.rtake_rtake`, `Store.rtake_cons_rtake`, `Store.rtake_concat_rtake` — the newest of the
  newest.
* `Store.insert_older`, `Store.insert_newer` — **a history that grows at either end.**
* `Store.serveAll_older` — a history that comes in from its end to its beginning.
-/

namespace RewindRelay

open Chunk (Ascending)

namespace Store

/-! ## The end of a list -/

lemma rtake_rtake {α : Type} (l : List α) (m n : ℕ) :
    (l.rtake m).rtake n = l.rtake (min m n) := by
  simp only [List.rtake_eq_reverse_take_reverse, List.reverse_reverse, List.take_take,
    Nat.min_comm]

/-- A chunk in front of a store that is full leaves at once. -/
lemma rtake_cons_rtake {α : Type} (a : α) (l : List α) (n : ℕ) :
    (a :: l.rtake n).rtake n = (a :: l).rtake n := by
  rcases Nat.lt_or_ge n l.length with hlt | hge
  · have hlen : (l.rtake n).length = n := by
      simp only [List.rtake, List.length_drop]
      omega
    have hdrop : l.length + 1 - n = (l.length - n) + 1 := by omega
    have hfull := rtake_append [a] (l.rtake n) (Nat.le_of_eq hlen)
    rw [hlen, Nat.sub_self, List.rtake_zero, List.nil_append, List.singleton_append] at hfull
    rw [hfull, List.rtake, List.rtake, List.length_cons, hdrop, List.drop_succ_cons]
  · rw [rtake_eq_self hge]

/-- What has left a full list is not missed when another element comes in behind it. -/
lemma rtake_concat_rtake {α : Type} (l : List α) (a : α) (n : ℕ) :
    (l.rtake n ++ [a]).rtake n = (l ++ [a]).rtake n := by
  cases n with
  | zero => rw [List.rtake_zero, List.rtake_zero]
  | succ n =>
      rw [List.rtake_concat_succ, List.rtake_concat_succ, rtake_rtake,
        Nat.min_eq_right n.le_succ]

/-! ## Histories -/

/-- The store after a chunk that is older than all audio it was filled from. -/
lemma insert_older {s : Store} {newer : List Chunk} (hcap : 1 ≤ s.capacity)
    (hstore : s.chunks = newer.rtake s.capacity) {c : Chunk} (hasc : Ascending (c :: newer)) :
    (s.placement c.ts).isStored = true ∧
      (s.insert c).2.chunks = (c :: newer).rtake s.capacity := by
  obtain ⟨hold, hnewer⟩ := Chunk.ascending_cons.mp hasc
  by_cases hnil : s.chunks = []
  · have hempty : newer = [] := by
      rw [hstore, List.rtake, List.drop_eq_nil_iff] at hnil
      exact List.length_eq_zero_iff.mp (by omega)
    have hplace : s.placement c.ts = .appended := placement_of_nil hnil
    refine ⟨by rw [hplace]; rfl, ?_⟩
    rw [chunks_insert_of_appended hplace, hnil, hempty]
    rfl
  · have hplace : s.placement c.ts = .prepended := by
      refine (placement_eq_prepended_iff ?_).mpr ⟨hnil, fun d hd => ?_⟩
      · rw [hstore]
        exact hnewer.rtake _
      · rw [hstore] at hd
        exact hold d (List.mem_of_mem_drop hd)
    refine ⟨by rw [hplace]; rfl, ?_⟩
    rw [chunks_insert_of_prepended hplace, hstore, rtake_cons_rtake]

/-- The store after a chunk that is newer than all audio it was filled from. -/
lemma insert_newer {s : Store} {older : List Chunk} (hstore : s.chunks = older.rtake s.capacity)
    {c : Chunk} (hasc : Ascending (older ++ [c])) :
    s.placement c.ts = .appended ∧ (s.insert c).2.chunks = (older ++ [c]).rtake s.capacity := by
  obtain ⟨holder, -, hnew⟩ := Chunk.ascending_append.mp hasc
  have hplace : s.placement c.ts = .appended := by
    refine (placement_eq_appended_iff ?_).mpr fun d hd => ?_
    · rw [hstore]
      exact holder.rtake _
    · rw [hstore] at hd
      exact hnew d (List.mem_of_mem_drop hd) c (List.mem_singleton_self c)
  refine ⟨hplace, ?_⟩
  rw [chunks_insert_of_appended hplace, hstore, rtake_concat_rtake]

/-- **Chunks that arrive from the newest to the oldest.**  All are stored as they come in, and the
newest are still there in the end. -/
lemma serveAll_older {s : Store} (hcap : 1 ≤ s.capacity) (older newer : List Chunk)
    (hstore : s.chunks = newer.rtake s.capacity) (hasc : Ascending (older ++ newer)) :
    (∀ outcome ∈ (serveAll serve s (older.reverse.map .insert)).1, outcome.isStored = true) ∧
      (serveAll serve s (older.reverse.map .insert)).2.chunks =
        (older ++ newer).rtake s.capacity ∧
      (serveAll serve s (older.reverse.map .insert)).2.capacity = s.capacity := by
  induction older using List.reverseRecOn generalizing s newer with
  | nil => exact ⟨by simp [serveAll], hstore, rfl⟩
  | append_singleton older c ih =>
      rw [List.append_assoc, List.singleton_append] at hasc ⊢
      obtain ⟨hstored, hchunks⟩ := insert_older hcap hstore (Chunk.ascending_append.mp hasc).2.1
      obtain ⟨hall, haudio, hsame⟩ := ih (s := (s.insert c).2) (by simpa using hcap) (c :: newer)
        (by simpa using hchunks) hasc
      rw [capacity_insert] at haudio hsame
      rw [List.reverse_append, List.reverse_singleton, List.singleton_append, List.map_cons]
      refine ⟨fun outcome houtcome => ?_, haudio, hsame⟩
      rcases List.mem_append.mp houtcome with hfirst | hrest
      · rw [serve, insert_fst] at hfirst
        rw [List.mem_singleton.mp hfirst]
        exact hstored
      · exact hall outcome hrest

end Store

end RewindRelay
