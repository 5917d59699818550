import Mathlib.Tactic
import RewindRelay.Proofs.Store.Order
/-!
# The store as a bounded map

What a store is for can be said without a list and without searching: it is a map from timestamps
to chunks that takes new keys only beyond its largest and smallest ones, and gives up its smallest
keys when it has too many.  Such a map is a `Catalog`.  Here a store and a catalog serve the same
requests, and nobody who asks them can tell one from the other.

* `Catalog` — the map, with `Catalog.outcome` and `Catalog.trim`.
* `Store.Request`, `serveAll` — requests, served one after the other.
* `Catalog.Lists` — the chunks of a list are the entries of a catalog, in key order.
* `Catalog.Lists.insert`, `Catalog.Lists.trim` — what the operations do to the list.
* `Store.serveAll_counters` — **the counters add up.**
* `Store.refines_catalog` — **a store is a bounded map.**
-/

namespace RewindRelay

open Chunk (Ascending)
open Std (TreeMap)

/-! ## The map -/

/-- Chunks by timestamp, at most `capacity` of them. -/
structure Catalog where
  entries : TreeMap Int64 Chunk := ∅
  capacity : ℕ

namespace Catalog

def empty (capacity : ℕ) : Catalog := { capacity }

/-- What becomes of a chunk with this timestamp. -/
def outcome (m : Catalog) (ts : Int64) : InsertOutcome :=
  match m.entries.minKey?, m.entries.maxKey? with
  | some smallest, some largest =>
    if largest < ts then .appended
    else if ts < smallest then .prepended
    else if ts ∈ m.entries then .duplicate
    else .outOfOrder
  | _, _ => .appended

/-- Removes the smallest keys until the size is within the capacity. -/
def trim (m : Catalog) : Catalog :=
  if m.entries.size ≤ m.capacity then m
  else match _h : m.entries.minKey? with
    | some smallest => trim { m with entries := m.entries.erase smallest }
    | none => m
termination_by m.entries.size
decreasing_by
  have hmem := (TreeMap.minKey?_eq_some_iff_mem_and_forall.mp _h).1
  simp only [TreeMap.size_erase, TreeMap.mem_iff_contains.mp hmem, if_true]
  omega

/-- Offers a chunk to the map.  A key that is there keeps its chunk. -/
def insert (m : Catalog) (c : Chunk) : InsertOutcome × Catalog :=
  (m.outcome c.ts, if (m.outcome c.ts).isStored then
    trim { m with entries := m.entries.insert c.ts c } else m)

def setCapacity (m : Catalog) (capacity : ℕ) : Catalog := trim { m with capacity }

def clear (m : Catalog) : Catalog := { m with entries := ∅ }

end Catalog

/-! ## Requests -/

/-- What a store is asked to do. -/
inductive Store.Request
  | insert (c : Chunk)
  | setCapacity (capacity : ℕ)
  | clear

open Store (Request)

/-- The outcome of a request that has one, and the store after it. -/
def Store.serve (s : Store) : Request → Option InsertOutcome × Store
  | .insert c => (some (s.insert c).1, (s.insert c).2)
  | .setCapacity capacity => (none, s.setCapacity capacity)
  | .clear => (none, s.clear)

def Catalog.serve (m : Catalog) : Request → Option InsertOutcome × Catalog
  | .insert c => (some (m.insert c).1, (m.insert c).2)
  | .setCapacity capacity => (none, m.setCapacity capacity)
  | .clear => (none, m.clear)

/-- The outcomes of all requests, in order, and the state at the end. -/
def serveAll {σ : Type} (serve : σ → Request → Option InsertOutcome × σ) :
    σ → List Request → List InsertOutcome × σ
  | s, [] => ([], s)
  | s, request :: rest =>
    ((serve s request).1.toList ++ (serveAll serve (serve s request).2 rest).1,
      (serveAll serve (serve s request).2 rest).2)

/-- How many chunks a request removes by clearing the store. -/
def Store.clearedBy (s : Store) : Request → ℕ
  | .clear => s.length
  | _ => 0

/-- How many chunks the clears among the requests remove. -/
def Store.cleared : Store → List Request → ℕ
  | _, [] => 0
  | s, request :: rest => s.clearedBy request + cleared (s.serve request).2 rest

/-! ## Entries in key order -/

namespace Catalog

/-- The chunks are the entries of the map, in key order. -/
def Lists (m : Catalog) (chunks : List Chunk) : Prop :=
  m.entries.toList = chunks.map fun c => (c.ts, c)

variable {m : Catalog} {chunks : List Chunk} {c : Chunk} {ts : Int64}

/-- The same, said of one key at a time. -/
lemma lists_iff : m.Lists chunks ↔
    Ascending chunks ∧ ∀ ts c, m.entries[ts]? = some c ↔ c ∈ chunks ∧ c.ts = ts := by
  have hmem : ∀ ts c, (ts, c) ∈ chunks.map (fun c => (c.ts, c)) ↔ c ∈ chunks ∧ c.ts = ts := by
    intro ts c
    simp only [List.mem_map, Prod.mk.injEq]
    constructor
    · rintro ⟨d, hd, hts, rfl⟩
      exact ⟨hd, hts⟩
    · rintro ⟨hc, hts⟩
      exact ⟨c, hc, hts, rfl⟩
  have hsorted : m.entries.toList.Pairwise fun a b => a.1 < b.1 :=
    TreeMap.ordered_keys_toList.imp fun h => Std.compare_eq_lt.mp h
  constructor
  · intro h
    rw [h] at hsorted
    rw [List.pairwise_map] at hsorted
    refine ⟨hsorted, fun ts c => ?_⟩
    rw [← TreeMap.mem_toList_iff_getElem?_eq_some, h, hmem]
  · rintro ⟨hasc, hget⟩
    have hsorted' : (chunks.map fun c => (c.ts, c)).Pairwise fun a b => a.1 < b.1 :=
      List.pairwise_map.mpr hasc
    have : Std.Antisymm fun a b : Int64 × Chunk => a.1 < b.1 :=
      ⟨fun _ _ h h' => absurd h' (Int64.lt_asymm h)⟩
    have : Std.Irrefl fun a b : Int64 × Chunk => a.1 < b.1 := ⟨fun _ => Int64.lt_irrefl⟩
    refine hsorted.eq_of_mem_iff hsorted' fun a => ?_
    rw [hmem, ← hget, TreeMap.mem_toList_iff_getElem?_eq_some]

lemma lists_empty (capacity : ℕ) : (empty capacity).Lists [] := rfl

lemma Lists.ascending (h : m.Lists chunks) : Ascending chunks := (lists_iff.mp h).1

lemma Lists.size_eq (h : m.Lists chunks) : m.entries.size = chunks.length := by
  rw [← TreeMap.length_toList, h, List.length_map]

lemma Lists.mem_iff (h : m.Lists chunks) : ts ∈ m.entries ↔ ∃ c ∈ chunks, c.ts = ts := by
  rw [TreeMap.mem_iff_contains, TreeMap.contains_eq_isSome_getElem?, Option.isSome_iff_exists]
  simp only [(lists_iff.mp h).2]

lemma Lists.minKey?_eq (h : m.Lists chunks) : m.entries.minKey? = chunks.head?.map Chunk.ts := by
  rw [TreeMap.minKey?_eq_head?_keys, ← TreeMap.map_fst_toList_eq_keys, h, List.map_map,
    List.head?_map]
  rfl

lemma Lists.maxKey?_eq (h : m.Lists chunks) :
    m.entries.maxKey? = chunks.getLast?.map Chunk.ts := by
  rw [TreeMap.maxKey?_eq_getLast?_keys, ← TreeMap.map_fst_toList_eq_keys, h, List.map_map,
    List.getLast?_map]
  rfl

lemma Lists.insert_new {chunks' : List Chunk} (h : m.Lists chunks) (hasc : Ascending chunks')
    (hmem : ∀ d, d ∈ chunks' ↔ d = c ∨ d ∈ chunks) (hnew : ∀ d ∈ chunks, d.ts ≠ c.ts) :
    Lists { m with entries := m.entries.insert c.ts c } chunks' := by
  refine lists_iff.mpr ⟨hasc, fun ts d => ?_⟩
  simp only [TreeMap.getElem?_insert, Std.LawfulEqCmp.compare_eq_iff_eq, hmem]
  split
  · next hts =>
      subst hts
      constructor
      · intro hd
        cases hd
        exact ⟨Or.inl rfl, rfl⟩
      · rintro ⟨rfl | hd, hts⟩
        · rfl
        · exact absurd hts (hnew d hd)
  · next hts =>
      rw [(lists_iff.mp h).2]
      refine and_congr_left fun hd => (or_iff_right ?_).symm
      rintro rfl
      exact hts hd

/-- The smallest key is the timestamp of the first chunk. -/
lemma Lists.erase_smallest (h : m.Lists (c :: chunks)) :
    Lists { m with entries := m.entries.erase c.ts } chunks := by
  obtain ⟨hasc, hget⟩ := lists_iff.mp h
  obtain ⟨hlt, hrest⟩ := Chunk.ascending_cons.mp hasc
  refine lists_iff.mpr ⟨hrest, fun ts d => ?_⟩
  simp only [TreeMap.getElem?_erase, Std.LawfulEqCmp.compare_eq_iff_eq]
  split
  · next hts =>
      simp only [reduceCtorEq, false_iff, not_and]
      rintro hd rfl
      exact Int64.lt_irrefl (hts ▸ hlt d hd)
  · next hts =>
      rw [hget, List.mem_cons]
      refine and_congr_left fun hd => or_iff_right ?_
      rintro rfl
      exact hts hd

/-! ## Operations -/

/-- Trimming keeps the newest chunks. -/
lemma Lists.trim (h : m.Lists chunks) : m.trim.Lists (chunks.rtake m.capacity) := by
  induction chunks generalizing m with
  | nil =>
      rw [Catalog.trim, if_pos (by rw [h.size_eq]; exact Nat.zero_le _), List.rtake_nil]
      exact h
  | cons c chunks ih =>
      rw [Catalog.trim]
      split
      · next hle =>
          rw [Store.rtake_eq_self (by rwa [h.size_eq] at hle)]
          exact h
      · next hgt =>
          rw [h.size_eq, List.length_cons] at hgt
          have hsmallest : m.entries.minKey? = some c.ts := h.minKey?_eq
          have hrest := ih h.erase_smallest
          rw [List.rtake, List.length_cons, show chunks.length + 1 - m.capacity =
            chunks.length - m.capacity + 1 by omega, List.drop_succ_cons]
          split
          · next smallest hkey =>
              rw [hsmallest] at hkey
              cases hkey
              exact hrest
          · next hnone =>
              rw [hsmallest] at hnone
              cases hnone

lemma capacity_trim (m : Catalog) : m.trim.capacity = m.capacity := by
  fun_induction Catalog.trim m with
  | case1 m hle => rfl
  | case2 m hgt smallest hkey ih => exact ih
  | case3 m hgt hnone => rfl

lemma capacity_insert (m : Catalog) (c : Chunk) : (m.insert c).2.capacity = m.capacity := by
  simp only [insert]
  split
  · rw [capacity_trim]
  · rfl

end Catalog

variable {s : Store} {m : Catalog}

/-- A store and a catalog with the same contents, which are not too many. -/
structure Store.Matches (s : Store) (m : Catalog) : Prop where
  lists : m.Lists s.chunks
  capacity : s.capacity = m.capacity
  bounded : s.length ≤ s.capacity

lemma Store.Matches.outcome_eq (h : s.Matches m) (ts : Int64) : m.outcome ts = s.placement ts := by
  rw [Catalog.outcome, h.lists.minKey?_eq, h.lists.maxKey?_eq]
  by_cases hnil : s.chunks = []
  · rw [Store.placement_of_nil hnil, hnil]
    rfl
  · obtain ⟨oldest, newest, ho, hn⟩ := Store.exists_ends hnil
    have hholds : s.holds ts = true ↔ ts ∈ m.entries := by
      rw [Store.holds_iff h.lists.ascending, h.lists.mem_iff]
    rw [Store.placement_of_ends ho hn, ho, hn]
    simp only [Option.map_some, hholds]

lemma Store.Matches.insert (h : s.Matches m) (c : Chunk) :
    (s.insert c).2.Matches (m.insert c).2 := by
  refine ⟨?_, by rw [Store.capacity_insert, Catalog.capacity_insert, h.capacity],
    by rw [Store.capacity_insert]; exact Store.length_insert_le h.bounded c⟩
  have hasc := h.lists.ascending
  simp only [Catalog.insert, h.outcome_eq]
  cases hp : s.placement c.ts with
  | appended =>
      have hall := (Store.placement_eq_appended_iff hasc).mp hp
      rw [Store.chunks_insert_of_appended hp, h.capacity]
      refine (h.lists.insert_new (Chunk.ascending_append.mpr ⟨hasc, ?_, ?_⟩) ?_ ?_).trim
      · exact List.pairwise_singleton _ _
      · simpa using hall
      · simp [or_comm]
      · exact fun d hd hts => Int64.lt_irrefl (hts ▸ hall d hd)
  | prepended =>
      have hall := ((Store.placement_eq_prepended_iff hasc).mp hp).2
      rw [Store.chunks_insert_of_prepended hp, h.capacity]
      refine (h.lists.insert_new (Chunk.ascending_cons.mpr ⟨hall, hasc⟩) ?_ ?_).trim
      · simp
      · exact fun d hd hts => Int64.lt_irrefl (hts ▸ hall d hd)
  | duplicate =>
      rw [Store.chunks_insert_of_not_isStored (by rw [hp]; rfl)]
      exact h.lists
  | outOfOrder =>
      rw [Store.chunks_insert_of_not_isStored (by rw [hp]; rfl)]
      exact h.lists

lemma Store.Matches.serve (h : s.Matches m) (request : Request) :
    (s.serve request).1 = (m.serve request).1 ∧
      (s.serve request).2.Matches (m.serve request).2 := by
  cases request with
  | insert c =>
      refine ⟨?_, h.insert c⟩
      simp only [Store.serve, Catalog.serve, Store.insert_fst, Catalog.insert, h.outcome_eq]
  | setCapacity capacity =>
      have hlists : Catalog.Lists { m with capacity } s.chunks := h.lists
      exact ⟨rfl, hlists.trim, (Catalog.capacity_trim { m with capacity }).symm,
        Store.length_rtake_le _ _⟩
  | clear => exact ⟨rfl, Catalog.lists_empty m.capacity, h.capacity, Nat.zero_le _⟩

lemma Store.Matches.serveAll (h : s.Matches m) (requests : List Request) :
    (RewindRelay.serveAll Store.serve s requests).1 =
        (RewindRelay.serveAll Catalog.serve m requests).1 ∧
      (RewindRelay.serveAll Store.serve s requests).2.Matches
        (RewindRelay.serveAll Catalog.serve m requests).2 := by
  induction requests generalizing s m with
  | nil => exact ⟨rfl, h⟩
  | cons request rest ih =>
      obtain ⟨houtcome, hnext⟩ := h.serve request
      obtain ⟨houtcomes, hlast⟩ := ih hnext
      exact ⟨by simp only [RewindRelay.serveAll, houtcome, houtcomes], hlast⟩

/-! ## Counters -/

namespace Store

lemma evicted_evict (s : Store) :
    s.evict.counters.evicted + s.evict.length = s.counters.evicted + s.length := by
  simp only [evict, length, List.length_drop]
  omega

/-- What happens to the counters while a store gives these outcomes and so many of its chunks are
cleared. -/
structure Counted (s s' : Store) (outcomes : List InsertOutcome) (cleared : ℕ) : Prop where
  inserted : s'.counters.inserted = s.counters.inserted + outcomes.countP InsertOutcome.isStored
  duplicates : s'.counters.duplicates = s.counters.duplicates + outcomes.count .duplicate
  outOfOrder : s'.counters.outOfOrder = s.counters.outOfOrder + outcomes.count .outOfOrder
  conserved : s.counters.evicted + s.length + outcomes.countP InsertOutcome.isStored =
    s'.counters.evicted + s'.length + cleared

lemma Counted.refl (s : Store) : Counted s s [] 0 := ⟨rfl, rfl, rfl, rfl⟩

lemma Counted.trans {s s' s'' : Store} {outcomes outcomes' : List InsertOutcome}
    {cleared cleared' : ℕ} (h : Counted s s' outcomes cleared)
    (h' : Counted s' s'' outcomes' cleared') :
    Counted s s'' (outcomes ++ outcomes') (cleared + cleared') where
  inserted := by rw [h'.inserted, h.inserted, List.countP_append, Nat.add_assoc]
  duplicates := by rw [h'.duplicates, h.duplicates, List.count_append, Nat.add_assoc]
  outOfOrder := by rw [h'.outOfOrder, h.outOfOrder, List.count_append, Nat.add_assoc]
  conserved := by
    have hfirst := h.conserved
    have hsecond := h'.conserved
    rw [List.countP_append]
    omega

lemma Counted.evict {s s' : Store} {outcomes : List InsertOutcome} {cleared : ℕ}
    (h : Counted s s' outcomes cleared) : Counted s s'.evict outcomes cleared where
  inserted := h.inserted
  duplicates := h.duplicates
  outOfOrder := h.outOfOrder
  conserved := by rw [evicted_evict, h.conserved]

lemma counted_insert (s : Store) (c : Chunk) :
    Counted s (s.insert c).2 [s.placement c.ts] 0 := by
  cases hp : s.placement c.ts with
  | appended =>
      simp only [insert, hp]
      refine Counted.evict ⟨rfl, rfl, rfl, ?_⟩
      simp only [length, List.length_append]
      rfl
  | prepended =>
      simp only [insert, hp]
      exact Counted.evict ⟨rfl, rfl, rfl, rfl⟩
  | duplicate =>
      simp only [insert, hp]
      exact ⟨rfl, rfl, rfl, rfl⟩
  | outOfOrder =>
      simp only [insert, hp]
      exact ⟨rfl, rfl, rfl, rfl⟩

lemma counted_serve (s : Store) (request : Request) :
    Counted s (s.serve request).2 (s.serve request).1.toList (s.clearedBy request) := by
  cases request with
  | insert c =>
      have h := counted_insert s c
      rwa [← insert_fst] at h
  | setCapacity capacity => exact Counted.evict ⟨rfl, rfl, rfl, rfl⟩
  | clear => exact ⟨rfl, rfl, rfl, rfl⟩

/-- **The counters add up.** -/
lemma serveAll_counters (s : Store) (requests : List Request) :
    Counted s (serveAll serve s requests).2 (serveAll serve s requests).1
      (s.cleared requests) := by
  induction requests generalizing s with
  | nil => exact .refl s
  | cons request rest ih => exact (counted_serve s request).trans (ih _)

/-! ## Chunks in a row -/

/-- What becomes of chunks that are offered to a new store, and that store. -/
def filled (capacity : ℕ) (chunks : List Chunk) : List InsertOutcome × Store :=
  serveAll serve (.empty capacity) (chunks.map .insert)

lemma length_serveAll_insert (s : Store) (chunks : List Chunk) :
    (serveAll serve s (chunks.map .insert)).1.length = chunks.length := by
  induction chunks generalizing s with
  | nil => rfl
  | cons c chunks ih => simp [serveAll, serve, ih]

lemma capacity_serveAll_insert (s : Store) (chunks : List Chunk) :
    (serveAll serve s (chunks.map .insert)).2.capacity = s.capacity := by
  induction chunks generalizing s with
  | nil => rfl
  | cons c chunks ih => rw [List.map_cons, serveAll, ih, serve, capacity_insert]

lemma matches_empty {s : Store} (h : s.chunks = []) : s.Matches (.empty s.capacity) where
  lists := by
    rw [h]
    exact Catalog.lists_empty s.capacity
  capacity := rfl
  bounded := by
    rw [length, h]
    exact Nat.zero_le _

/-- A store that is empty serves like a new one.  Both match the same catalog. -/
lemma serveAll_of_chunks_nil {s : Store} (h : s.chunks = []) (requests : List Request) :
    (serveAll serve s requests).1 = (serveAll serve (.empty s.capacity) requests).1 ∧
      (serveAll serve s requests).2.chunks =
        (serveAll serve (.empty s.capacity) requests).2.chunks := by
  have hnew : Matches (.empty s.capacity) (.empty s.capacity) := matches_empty rfl
  obtain ⟨houtcomes, hmatches⟩ := (matches_empty h).serveAll requests
  obtain ⟨houtcomes', hmatches'⟩ := hnew.serveAll requests
  refine ⟨houtcomes.trans houtcomes'.symm, ?_⟩
  have hsame := hmatches.lists.symm.trans hmatches'.lists
  exact List.map_injective_iff.mpr (fun _ _ heq => congrArg Prod.snd heq) hsame

/-! ## Refinement -/

/-- What a store and a catalog have in common that have given these outcomes to the same requests;
`cleared` chunks of the store were removed by clearing it. -/
structure Refines (store : List InsertOutcome × Store) (catalog : List InsertOutcome × Catalog)
    (cleared : ℕ) : Prop where
  outcomes : store.1 = catalog.1
  /-- The chunks, oldest first, are the entries of the map in key order. -/
  entries : store.2.chunks.map (fun c => (c.ts, c)) = catalog.2.entries.toList
  capacity : store.2.capacity = catalog.2.capacity
  ascending : Ascending store.2.chunks
  bounded : store.2.length ≤ store.2.capacity
  conserved : store.2.counters.inserted = store.2.counters.evicted + store.2.length + cleared
  inserted : store.2.counters.inserted = store.1.countP InsertOutcome.isStored
  duplicates : store.2.counters.duplicates = store.1.count .duplicate
  outOfOrder : store.2.counters.outOfOrder = store.1.count .outOfOrder

/-- **A store is a bounded map.**  Whatever is asked of a new store, of any capacity, the outcomes
and the contents are those of the map. -/
theorem refines_catalog (capacity : ℕ) (requests : List Request) :
    Refines (serveAll Store.serve (.empty capacity) requests)
      (serveAll Catalog.serve (.empty capacity) requests) (cleared (.empty capacity) requests) := by
  have hempty : Matches (.empty capacity) (.empty capacity) := matches_empty rfl
  obtain ⟨houtcomes, hmatches⟩ := hempty.serveAll requests
  have hcounted := serveAll_counters (.empty capacity) requests
  have hinserted := hcounted.inserted
  have hconserved := hcounted.conserved
  simp only [empty, length, List.length_nil, Nat.zero_add] at hinserted hconserved
  exact
    { outcomes := houtcomes
      entries := hmatches.lists.symm
      capacity := hmatches.capacity
      ascending := hmatches.lists.ascending
      bounded := hmatches.bounded
      conserved := hinserted.trans hconserved
      inserted := hinserted
      duplicates := hcounted.duplicates.trans (Nat.zero_add _)
      outOfOrder := hcounted.outOfOrder.trans (Nat.zero_add _) }

end Store

end RewindRelay
