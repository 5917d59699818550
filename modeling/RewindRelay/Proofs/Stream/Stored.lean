import RewindRelay.Proofs.Stream.Position
import RewindRelay.Proofs.Stream.Restore
/-!
# What was reported as stored

The outcome of an insertion is fixed before the store drops what it has no room for, and what it
drops is the oldest.  So a chunk that is older than all audio of a full store goes in at the oldest
end, is reported as stored, and is gone by then.  No other report is wrong.  A preload counts these
reports: it counts as many chunks as are there in the end, or more if they are more than the stream
has room for.

* `Store.Truthful` — the report about a chunk is right.
* `Store.PassesThrough` — the chunk would leave the store as soon as it is in.
* `Store.truthful_iff` — **every other report is right.**
* `Store.length_insert`, `Store.length_offered` — how many chunks insertions leave.
* `Summary.Tallies` — a preload leaves what it has counted, if there is room.
* `Stream.stored_iff` — **when a stored chunk is stored**, and a loaded one loaded.
-/

namespace RewindRelay

open Chunk (Ascending)

namespace Store

/-! ## One chunk -/

/-- The outcome says that the chunk is stored exactly when the store holds it now and did not hold
it before. -/
def Truthful (s : Store) (c : Chunk) : Prop :=
  (s.insert c).1.isStored = true ↔ c ∈ (s.insert c).2.chunks ∧ c ∉ s.chunks

/-- The store is full, and all it holds is newer than the chunk. -/
def PassesThrough (s : Store) (c : Chunk) : Prop :=
  s.length = s.capacity ∧ ∀ d ∈ s.chunks, c.ts < d.ts

instance (s : Store) (c : Chunk) : Decidable (s.PassesThrough c) :=
  inferInstanceAs (Decidable (_ ∧ _))

variable {s : Store} {c : Chunk}

/-- A chunk that is older than all others is reported as stored, room or no room. -/
lemma isStored_of_older (h : Ascending s.chunks) (hold : ∀ d ∈ s.chunks, c.ts < d.ts) :
    (s.placement c.ts).isStored = true := by
  by_cases hnil : s.chunks = []
  · rw [placement_of_nil hnil]
    rfl
  · rw [(placement_eq_prepended_iff h).mpr ⟨hnil, hold⟩]
    rfl

/-- At the newest end a chunk stays, unless there is no room for any. -/
lemma mem_insert_of_appended (h : Ascending s.chunks) (hlen : s.length ≤ s.capacity)
    (hp : s.placement c.ts = .appended) :
    c ∈ (s.insert c).2.chunks ↔ ¬ s.PassesThrough c := by
  have hnew := (placement_eq_appended_iff h).mp hp
  rw [chunks_insert_of_appended hp]
  by_cases hcap : s.capacity = 0
  · have hempty : s.length = 0 := by omega
    have hnil : s.chunks = [] := List.length_eq_zero_iff.mp hempty
    have hpass : s.PassesThrough c := ⟨by omega, by simp [hnil]⟩
    simp [hcap, hpass, List.rtake_zero]
  · have hroom : [c].length ≤ s.capacity := Nat.one_le_iff_ne_zero.mpr hcap
    rw [rtake_append _ _ hroom]
    refine iff_of_true (by simp) ?_
    rintro ⟨hfull, hold⟩
    obtain ⟨d, hd⟩ := List.exists_mem_of_length_pos (show 0 < s.chunks.length from by
      rw [length] at hfull
      omega)
    exact Int64.lt_asymm (hnew d hd) (hold d hd)

/-- At the oldest end a chunk stays if there is room for it. -/
lemma mem_insert_of_prepended (h : Ascending s.chunks) (hlen : s.length ≤ s.capacity)
    (hp : s.placement c.ts = .prepended) :
    c ∈ (s.insert c).2.chunks ↔ ¬ s.PassesThrough c := by
  have hold := ((placement_eq_prepended_iff h).mp hp).2
  have hnot : c ∉ s.chunks := fun hc => Int64.lt_irrefl (hold c hc)
  rw [chunks_insert_of_prepended hp]
  rcases Nat.eq_or_lt_of_le hlen with hfull | hroom
  · have hgone : (c :: s.chunks).rtake s.capacity = s.chunks := by
      rw [List.rtake, List.length_cons, ← length, hfull, Nat.add_sub_cancel_left]
      rfl
    rw [hgone]
    exact iff_of_false hnot (not_not.mpr ⟨hfull, hold⟩)
  · rw [rtake_eq_self (by rw [List.length_cons]; exact hroom)]
    refine iff_of_true List.mem_cons_self ?_
    rintro ⟨hfull, -⟩
    omega

/-- **When the report about a chunk is right.** -/
theorem truthful_iff (h : Ascending s.chunks) (hlen : s.length ≤ s.capacity) (c : Chunk) :
    s.Truthful c ↔ ¬ s.PassesThrough c := by
  rw [Truthful, insert_fst]
  cases hstored : (s.placement c.ts).isStored with
  | true =>
      have hnot : c ∉ s.chunks := fun hc => ts_ne_of_isStored h hstored hc rfl
      have hmem : c ∈ (s.insert c).2.chunks ↔ ¬ s.PassesThrough c := by
        cases hp : s.placement c.ts with
        | appended => exact mem_insert_of_appended h hlen hp
        | prepended => exact mem_insert_of_prepended h hlen hp
        | duplicate | outOfOrder =>
            rw [hp] at hstored
            cases hstored
      simp only [hmem, hnot, not_false_eq_true, and_true, true_iff]
  | false =>
      rw [chunks_insert_of_not_isStored hstored]
      refine iff_of_true (by simp) ?_
      rintro ⟨-, hold⟩
      rw [isStored_of_older h hold] at hstored
      cases hstored

/-! ## Many chunks -/

lemma length_insert (hlen : s.length ≤ s.capacity) (c : Chunk) :
    (s.insert c).2.length =
      if (s.placement c.ts).isStored then min (s.length + 1) s.capacity else s.length := by
  cases hp : s.placement c.ts with
  | appended => exact length_insert_of_appended hp
  | prepended =>
      rw [length, chunks_insert_of_prepended hp, List.rtake, List.length_drop, List.length_cons,
        ← length]
      simp only [InsertOutcome.isStored, if_true]
      omega
  | duplicate | outOfOrder => rw [length, chunks_insert_of_not_isStored (by rw [hp]; rfl)]; rfl

/-- A store grows with each chunk that is reported as stored, as far as it has room. -/
lemma length_offered (hlen : s.length ≤ s.capacity) (chunks : List Chunk) :
    (serveAll serve s (chunks.map .insert)).2.length =
      min (s.length + (serveAll serve s (chunks.map .insert)).1.countP InsertOutcome.isStored)
        s.capacity := by
  induction chunks generalizing s with
  | nil => exact (Nat.min_eq_left hlen).symm
  | cons c chunks ih =>
      have hnext := ih (s := (s.insert c).2) (by simpa using length_insert_le hlen c)
      rw [capacity_insert, length_insert hlen c] at hnext
      simp only [List.map_cons, serveAll, serve, hnext, Option.toList_some, List.singleton_append,
        List.countP_cons, insert_fst]
      cases (s.placement c.ts).isStored with
      | true =>
          simp only [if_true]
          omega
      | false => simp only [Bool.false_eq_true, if_false, Nat.add_zero]

end Store

/-! ## Preloads -/

/-- The chunks that a preload has counted are those it leaves in the store, as far as there is room
for them. -/
structure Summary.Tallies (summary : Summary) (store : Store) : Prop where
  length : store.length = min summary.loaded store.capacity
  exact : summary.loaded = store.length ↔ summary.loaded ≤ store.capacity

lemma Summary.tallies_of_length {summary : Summary} {store : Store}
    (h : store.length = min summary.loaded store.capacity) : summary.Tallies store where
  length := h
  exact := by omega

namespace Stream

open Loader (found)

variable {C : Codec} {s : Stream} {pieces : List Bytes} {ending : Ending}

/-- A preload leaves as many chunks as it has counted, as far as there is room for them. -/
lemma length_preloadUntil (alive : s.destroyed = false) {summary : Summary}
    (hsummary : (s.preloadUntil C pieces ending).1 = some summary) :
    (s.preloadUntil C pieces ending).2.store.length =
      min summary.loaded (s.preloadUntil C pieces ending).2.store.capacity := by
  rcases frames_cases C pieces.flatten with hnil | ⟨h, chunks, hframes⟩
  · rw [preloadUntil_of_nothing hnil] at hsummary ⊢
    obtain ⟨error, rfl⟩ := Ending.exists_error hsummary
    exact (Nat.zero_min _).symm
  · cases hu : h.vitals.isUsable with
    | false =>
        rw [preloadUntil_of_refused hframes hu] at hsummary ⊢
        cases hsummary
        exact (Nat.zero_min _).symm
    | true =>
        obtain ⟨s', heq, haudio, hcapacity, -⟩ := preloadUntil_of_accepted alive hframes hu ending
        rw [heq] at hsummary ⊢
        obtain ⟨error, rfl⟩ := Ending.exists_error hsummary
        have hfilled := Store.length_offered
          (s := .empty (lengthBound s.windowSeconds (some h.vitals))) (Nat.zero_le _) chunks
        rw [Summary.foldl_count]
        simp only [abandon, Store.length, haudio, hcapacity]
        simpa only [Store.empty, Store.length, List.length_nil, Nat.zero_add, Store.filled]
          using hfilled

/-- **When a stored chunk is stored.**  The report about a chunk is right unless the store is full
of newer ones.  What a preload has counted is what it leaves behind, unless it has counted more
than there is room for; then the stream is full. -/
theorem stored_iff (C : Codec) {store : Store} (hstore : store.Reachable) (c : Chunk) {s : Stream}
    (alive : s.destroyed = false) (pieces : List Bytes) (ending : Ending) :
    (store.Truthful c ↔ ¬ store.PassesThrough c) ∧
      ∀ summary ∈ (s.preloadUntil C pieces ending).1,
        summary.Tallies (s.preloadUntil C pieces ending).2.store := by
  refine ⟨Store.truthful_iff hstore.ascending hstore.length_le.1 c, ?_⟩
  intro summary hsummary
  exact Summary.tallies_of_length (length_preloadUntil alive hsummary)

/-- A chunk that comes too late for `Store.lately`. -/
def bygone : Chunk := ⟨0, 1000, [0], none⟩

/-- A dump of three seconds, from the newest chunk to the oldest. -/
def threeSeconds : List Bytes :=
  headerBytes .json (.describe { streamKey := "a", chunkDuration := 1 } []) ::
    [2000, 1000, 0].map fun ts => chunkBytes .json ⟨ts, 1000, [1], none⟩

lemma lately_reachable : Store.lately.Reachable :=
  .insert _ (.insert _ (.insert _ (.empty (by decide))))

/-- There is room for two chunks, in the store as in the stream. -/
theorem stored_lately :
    Store.lately.Reachable ∧ (new "main" 2 65536).destroyed = false ∧
      (Store.lately.Truthful bygone ↔ ¬ Store.lately.PassesThrough bygone) ∧
      ∀ summary ∈ ((new "main" 2 65536).preloadUntil .json threeSeconds .closed).1,
        summary.Tallies
          ((new "main" 2 65536).preloadUntil .json threeSeconds .closed).2.store :=
  ⟨lately_reachable, rfl, stored_iff .json lately_reachable bygone rfl threeSeconds .closed⟩

/-- Not every stored chunk is stored, and not every loaded one loaded: the chunk is reported as
stored, and the preload counts three chunks and leaves two. -/
theorem not_forall_stored :
    (¬ ∀ store : Store, store.Reachable → ∀ c, store.Truthful c) ∧
      ¬ ∀ s : Stream, s.destroyed = false → ∀ pieces ending,
        ∀ summary ∈ (s.preloadUntil .json pieces ending).1,
          summary.loaded = (s.preloadUntil .json pieces ending).2.store.length := by
  constructor
  · intro hall
    have hstay := (Store.truthful_iff lately_reachable.ascending lately_reachable.length_le.1 _).mp
      (hall Store.lately lately_reachable bygone)
    exact hstay (by decide +kernel)
  · intro hall
    have hloaded : ((new "main" 2 65536).preloadUntil .json threeSeconds .closed).1.map
        Summary.loaded = some 3 := by decide +kernel
    have hlength : ((new "main" 2 65536).preloadUntil .json threeSeconds .closed).2.store.length =
        2 := by decide +kernel
    obtain ⟨summary, hsummary, hthree⟩ := Option.map_eq_some_iff.mp hloaded
    have htwo := hall (new "main" 2 65536) rfl threeSeconds .closed summary hsummary
    omega

end Stream

end RewindRelay
