import Mathlib.Tactic
import Mathlib.Data.List.DropRight
import RewindRelay.Store.Basic
/-!
# Order in the store

A store lists its chunks by strictly increasing timestamp, and everything that is said about
playback rests on that.  The order decides where a chunk goes, and insertion keeps it.

* `Chunk.Ascending` — the order.
* `Store.holds_iff` — the search for a timestamp, said of all stored chunks.
* `Store.placement_eq_appended_iff` and its companions — the placement of a timestamp, said of
  all stored chunks instead of the two ends.
* `Store.chunks_insert_of_appended`, `Store.chunks_insert_of_prepended`,
  `Store.chunks_insert_of_not_isStored` — what an insertion leaves in the store.
* `Store.ascending_insert` — **insertion keeps the order.**
-/

namespace RewindRelay

namespace Chunk

/-- Timestamps strictly increase along the list. -/
def Ascending (cs : List Chunk) : Prop := cs.Pairwise fun a b => a.ts < b.ts

instance (cs : List Chunk) : Decidable (Ascending cs) :=
  inferInstanceAs (Decidable (cs.Pairwise fun a b => a.ts < b.ts))

lemma ascending_nil : Ascending [] := List.Pairwise.nil

lemma Ascending.sublist {cs ds : List Chunk} (h : Ascending cs) (hs : ds.Sublist cs) :
    Ascending ds :=
  List.Pairwise.sublist hs h

lemma Ascending.rtake {cs : List Chunk} (h : Ascending cs) (n : ℕ) : Ascending (cs.rtake n) :=
  h.sublist (List.drop_sublist _ _)

lemma ascending_append {cs ds : List Chunk} :
    Ascending (cs ++ ds) ↔ Ascending cs ∧ Ascending ds ∧ ∀ a ∈ cs, ∀ b ∈ ds, a.ts < b.ts :=
  List.pairwise_append

lemma ascending_cons {c : Chunk} {cs : List Chunk} :
    Ascending (c :: cs) ↔ (∀ b ∈ cs, c.ts < b.ts) ∧ Ascending cs :=
  List.pairwise_cons

/-- One chunk for each timestamp. -/
lemma Ascending.eq_of_ts_eq {cs : List Chunk} (h : Ascending cs) {a b : Chunk}
    (ha : a ∈ cs) (hb : b ∈ cs) (hts : a.ts = b.ts) : a = b := by
  induction cs with
  | nil => cases ha
  | cons c rest ih =>
      obtain ⟨hc, hrest⟩ := ascending_cons.mp h
      rcases List.mem_cons.mp ha with ha | ha <;> rcases List.mem_cons.mp hb with hb | hb
      · rw [ha, hb]
      · exact absurd (hc b hb) (by simp [← ha, hts])
      · exact absurd (hc a ha) (by simp [← hb, hts])
      · exact ih hrest ha hb

/-- Nothing is newer than the last chunk. -/
lemma Ascending.ts_le_getLast? {cs : List Chunk} (h : Ascending cs) {c last : Chunk}
    (hc : c ∈ cs) (hlast : cs.getLast? = some last) : c.ts ≤ last.ts := by
  obtain ⟨front, rfl⟩ := List.getLast?_eq_some_iff.mp hlast
  obtain ⟨-, -, hlt⟩ := ascending_append.mp h
  rcases List.mem_append.mp hc with hc | hc
  · exact Int64.le_of_lt (hlt c hc last (by simp))
  · rw [List.mem_singleton.mp hc]
    exact Int64.le_rfl

/-- What follows the chunks up to a timestamp is newer. -/
lemma Ascending.ts_lt_of_mem_dropWhile {cs : List Chunk} (h : Ascending cs) {ts : Int64}
    {c : Chunk} (hc : c ∈ cs.dropWhile fun d => d.ts ≤ ts) : ts < c.ts := by
  induction cs with
  | nil => cases hc
  | cons a cs ih =>
      obtain ⟨hfirst, hrest⟩ := ascending_cons.mp h
      by_cases ha : a.ts ≤ ts
      · rw [List.dropWhile_cons_of_pos (by simpa using ha)] at hc
        exact ih hrest hc
      · rw [List.dropWhile_cons_of_neg (by simpa using ha)] at hc
        have hlt : ts < a.ts := Int64.not_le.mp ha
        rcases List.mem_cons.mp hc with rfl | hc
        · exact hlt
        · exact Int64.lt_trans hlt (hfirst c hc)

/-- Nothing is older than the first chunk. -/
lemma Ascending.head?_ts_le {cs : List Chunk} (h : Ascending cs) {c first : Chunk}
    (hc : c ∈ cs) (hfirst : cs.head? = some first) : first.ts ≤ c.ts := by
  obtain ⟨rest, rfl⟩ := List.head?_eq_some_iff.mp hfirst
  rcases List.mem_cons.mp hc with rfl | hc
  · exact Int64.le_rfl
  · exact Int64.le_of_lt ((ascending_cons.mp h).1 c hc)

/-- A chunk further down the list is at least as new. -/
lemma Ascending.ts_le_of_le {cs : List Chunk} (h : Ascending cs) {i j : ℕ} {a b : Chunk}
    (ha : cs[i]? = some a) (hb : cs[j]? = some b) (hij : i ≤ j) : a.ts ≤ b.ts := by
  obtain ⟨hi, rfl⟩ := List.getElem?_eq_some_iff.mp ha
  obtain ⟨hj, rfl⟩ := List.getElem?_eq_some_iff.mp hb
  rcases Nat.eq_or_lt_of_le hij with rfl | hlt
  · exact Int64.le_rfl
  · exact Int64.le_of_lt (List.pairwise_iff_getElem.mp h i j hi hj hlt)

end Chunk

namespace Store

open Chunk (Ascending)

/-! ## Eviction -/

@[simp] lemma chunks_evict (s : Store) : s.evict.chunks = s.chunks.rtake s.capacity := rfl

@[simp] lemma capacity_evict (s : Store) : s.evict.capacity = s.capacity := rfl

lemma length_rtake_le {α : Type} (l : List α) (n : ℕ) : (l.rtake n).length ≤ n := by
  simp only [List.rtake, List.length_drop]
  omega

lemma rtake_eq_self {α : Type} {l : List α} {n : ℕ} (h : l.length ≤ n) : l.rtake n = l := by
  rw [List.rtake, Nat.sub_eq_zero_of_le h, List.drop_zero]

/-- The end of a list is the whole of it only if the list is no longer. -/
lemma rtake_eq_self_iff {α : Type} {l : List α} {n : ℕ} : l.rtake n = l ↔ l.length ≤ n := by
  refine ⟨fun h => ?_, rtake_eq_self⟩
  have hlen := length_rtake_le l n
  rwa [h] at hlen

/-- The end of a list that is seen in two parts. -/
lemma rtake_append {α : Type} (l₁ l₂ : List α) {n : ℕ} (h : l₂.length ≤ n) :
    (l₁ ++ l₂).rtake n = l₁.rtake (n - l₂.length) ++ l₂ := by
  rw [List.rtake, List.drop_append_of_le_length (by simp only [List.length_append]; omega),
    List.rtake, List.length_append]
  congr 2
  omega

lemma getLast?_rtake {α : Type} (l : List α) {n : ℕ} (h : 0 < n) :
    (l.rtake n).getLast? = l.getLast? := by
  rw [List.rtake, List.getLast?_drop]
  split
  · next hle => simp [show l = [] from List.length_eq_zero_iff.mp (by omega)]
  · rfl

/-! ## Search -/

variable {s : Store} {ts : Int64}

/-- A position that is found is right, whatever the order. -/
lemma ts_of_bisect_eq_some {limit before i : ℕ} {chunks : List Chunk}
    (h : bisect ts limit before chunks = some i) :
    before ≤ i ∧ ∃ c, chunks[i - before]? = some c ∧ c.ts = ts := by
  induction limit generalizing before chunks with
  | zero => cases h
  | succ limit ih =>
      simp only [bisect] at h
      have hsplit := List.take_append_drop (chunks.length / 2) chunks
      have hhalf : (chunks.take (chunks.length / 2)).length = chunks.length / 2 := by
        rw [List.length_take]
        omega
      generalize chunks.take (chunks.length / 2) = older at h hsplit hhalf
      split at h
      · cases h
      · next middle newer hdrop =>
          rw [hdrop] at hsplit
          rw [← hhalf] at h
          subst hsplit
          split_ifs at h with heq hlt
          · cases h
            exact ⟨Nat.le_add_right _ _, middle, by simp, heq⟩
          · obtain ⟨hle, c, hc, hts⟩ := ih h
            refine ⟨by omega, c, ?_, hts⟩
            rw [List.getElem?_append_right (by omega), ← hc,
              show i - before - older.length = i - (before + older.length + 1) + 1 by omega,
              List.getElem?_cons_succ]
          · obtain ⟨hle, c, hc, hts⟩ := ih h
            refine ⟨hle, c, ?_, hts⟩
            rw [List.getElem?_append_left (List.getElem?_eq_some_iff.mp hc).1, hc]

/-- Among chunks in order every timestamp is found. -/
lemma isSome_bisect {limit before : ℕ} {chunks : List Chunk} (h : Ascending chunks)
    (hlimit : chunks.length ≤ limit) {c : Chunk} (hc : c ∈ chunks) (hts : c.ts = ts) :
    (bisect ts limit before chunks).isSome = true := by
  induction limit generalizing before chunks with
  | zero => simp [List.length_eq_zero_iff.mp (Nat.le_zero.mp hlimit)] at hc
  | succ limit ih =>
      simp only [bisect]
      have hsplit := List.take_append_drop (chunks.length / 2) chunks
      generalize chunks.take (chunks.length / 2) = older at hsplit ⊢
      split
      · next hdrop =>
          have hlen : chunks.length ≤ chunks.length / 2 := List.drop_eq_nil_iff.mp hdrop
          simp [List.length_eq_zero_iff.mp (show chunks.length = 0 by omega)] at hc
      · next middle newer hdrop =>
          rw [hdrop] at hsplit
          subst hsplit
          simp only [List.length_append, List.length_cons] at hlimit
          obtain ⟨holder, hrest, hbelow⟩ := Chunk.ascending_append.mp h
          obtain ⟨habove, hnewer⟩ := Chunk.ascending_cons.mp hrest
          -- the timestamp is on one side of the middle, or it is the one in the middle
          split_ifs with heq hlt
          · rfl
          · refine ih hnewer (by omega) ?_
            rcases List.mem_append.mp hc with hc | hc
            · exact absurd (hbelow c hc middle (by simp)) (Int64.lt_asymm (hts ▸ hlt))
            · refine (List.mem_cons.mp hc).resolve_left ?_
              rintro rfl
              exact heq hts
          · refine ih holder (by omega) ?_
            rcases List.mem_append.mp hc with hc | hc
            · exact hc
            · rcases List.mem_cons.mp hc with rfl | hc
              · exact absurd hts heq
              · exact absurd (hts ▸ habove c hc) hlt

/-- **The search is right.**  In a store that is in order it finds the chunk with a timestamp. -/
lemma holds_iff (h : Ascending s.chunks) :
    s.holds ts = true ↔ ∃ c ∈ s.chunks, c.ts = ts := by
  constructor
  · intro hholds
    obtain ⟨i, hi⟩ := Option.isSome_iff_exists.mp hholds
    obtain ⟨-, c, hc, hts⟩ := ts_of_bisect_eq_some hi
    exact ⟨c, List.mem_of_getElem? hc, hts⟩
  · rintro ⟨c, hc, hts⟩
    exact isSome_bisect h Nat.le.refl hc hts

/-! ## Placement -/

lemma placement_of_nil (h : s.chunks = []) : s.placement ts = .appended := by
  simp [placement, oldest?, newest?, h]

/-- The placement in a store that holds something, by its two ends. -/
lemma placement_of_ends {oldest newest : Chunk} (ho : s.chunks.head? = some oldest)
    (hn : s.chunks.getLast? = some newest) :
    s.placement ts = if newest.ts < ts then .appended
      else if ts < oldest.ts then .prepended
      else if s.holds ts then .duplicate
      else .outOfOrder := by
  simp only [placement, oldest?, newest?, ho, hn]

lemma exists_ends (h : s.chunks ≠ []) :
    ∃ oldest newest, s.chunks.head? = some oldest ∧ s.chunks.getLast? = some newest :=
  ⟨_, _, List.head?_eq_some_head h, List.getLast?_eq_some_getLast h⟩

lemma placement_eq_appended_iff (h : Ascending s.chunks) :
    s.placement ts = .appended ↔ ∀ c ∈ s.chunks, c.ts < ts := by
  by_cases hnil : s.chunks = []
  · simp [placement_of_nil hnil, hnil]
  · obtain ⟨oldest, newest, ho, hn⟩ := exists_ends hnil
    rw [placement_of_ends ho hn]
    constructor
    · intro hp c hc
      have hlt : newest.ts < ts := by
        by_contra hnot
        rw [if_neg hnot] at hp
        split_ifs at hp
      exact Int64.lt_of_le_of_lt (h.ts_le_getLast? hc hn) hlt
    · intro hall
      rw [if_pos (hall newest (List.mem_of_getLast? hn))]

lemma placement_eq_prepended_iff (h : Ascending s.chunks) :
    s.placement ts = .prepended ↔ s.chunks ≠ [] ∧ ∀ c ∈ s.chunks, ts < c.ts := by
  by_cases hnil : s.chunks = []
  · simp [placement_of_nil hnil, hnil]
  · obtain ⟨oldest, newest, ho, hn⟩ := exists_ends hnil
    have hmem : oldest ∈ s.chunks := List.mem_of_head? ho
    rw [placement_of_ends ho hn]
    constructor
    · intro hp
      refine ⟨hnil, fun c hc => ?_⟩
      have hlt : ts < oldest.ts := by
        by_contra hnot
        split_ifs at hp
      exact Int64.lt_of_lt_of_le hlt (h.head?_ts_le hc ho)
    · rintro ⟨-, hall⟩
      have hold : ¬ newest.ts < ts :=
        Int64.lt_asymm (hall newest (List.mem_of_getLast? hn))
      rw [if_neg hold, if_pos (hall oldest hmem)]

lemma placement_eq_duplicate_iff (h : Ascending s.chunks) :
    s.placement ts = .duplicate ↔ ∃ c ∈ s.chunks, c.ts = ts := by
  by_cases hnil : s.chunks = []
  · simp [placement_of_nil hnil, hnil]
  · obtain ⟨oldest, newest, ho, hn⟩ := exists_ends hnil
    have hholds : s.holds ts = true ↔ ∃ c ∈ s.chunks, c.ts = ts := holds_iff h
    rw [placement_of_ends ho hn, ← hholds]
    constructor
    · intro hp
      split_ifs at hp with h1 h2 h3
      exact h3
    · intro hd
      obtain ⟨c, hc, rfl⟩ := hholds.mp hd
      have hnew : ¬ newest.ts < c.ts := Int64.not_lt.mpr (h.ts_le_getLast? hc hn)
      have hold : ¬ c.ts < oldest.ts := Int64.not_lt.mpr (h.head?_ts_le hc ho)
      rw [if_neg hnew, if_neg hold, if_pos hd]

/-- A chunk that is stored brings a timestamp that was not there. -/
lemma ts_ne_of_isStored (h : Ascending s.chunks) (hs : (s.placement ts).isStored = true)
    {c : Chunk} (hc : c ∈ s.chunks) : c.ts ≠ ts := by
  rintro rfl
  rw [(placement_eq_duplicate_iff h).mpr ⟨c, hc, rfl⟩] at hs
  cases hs

/-! ## Insertion -/

variable {c : Chunk}

@[simp] lemma insert_fst (s : Store) (c : Chunk) : (s.insert c).1 = s.placement c.ts := by
  unfold insert
  split <;> simp_all

@[simp] lemma capacity_insert (s : Store) (c : Chunk) : (s.insert c).2.capacity = s.capacity := by
  unfold insert
  split <;> rfl

lemma chunks_insert_of_appended (h : s.placement c.ts = .appended) :
    (s.insert c).2.chunks = (s.chunks ++ [c]).rtake s.capacity := by
  simp [insert, h]

lemma length_insert_of_appended (h : s.placement c.ts = .appended) :
    (s.insert c).2.length = min (s.length + 1) s.capacity := by
  simp only [length, chunks_insert_of_appended h, List.rtake, List.length_drop, List.length_append,
    List.length_singleton]
  omega

lemma chunks_insert_of_prepended (h : s.placement c.ts = .prepended) :
    (s.insert c).2.chunks = (c :: s.chunks).rtake s.capacity := by
  simp [insert, h]

lemma chunks_insert_of_not_isStored (h : (s.placement c.ts).isStored = false) :
    (s.insert c).2.chunks = s.chunks := by
  unfold insert
  split <;> simp_all [InsertOutcome.isStored]

/-- What is in the store after an insertion was there before or is the new chunk. -/
lemma mem_chunks_insert {x : Chunk} (hx : x ∈ (s.insert c).2.chunks) :
    x ∈ s.chunks ∨ x = c ∧ (s.placement c.ts).isStored = true := by
  cases hp : s.placement c.ts with
  | appended =>
      rw [chunks_insert_of_appended hp] at hx
      have hx' := List.mem_of_mem_drop hx
      simp only [List.mem_append, List.mem_singleton] at hx'
      exact hx'.imp id fun h => ⟨h, rfl⟩
  | prepended =>
      rw [chunks_insert_of_prepended hp] at hx
      have hx' := List.mem_of_mem_drop hx
      rcases List.mem_cons.mp hx' with h | h
      · exact Or.inr ⟨h, rfl⟩
      · exact Or.inl h
  | duplicate =>
      rw [chunks_insert_of_not_isStored (by rw [hp]; rfl)] at hx
      exact Or.inl hx
  | outOfOrder =>
      rw [chunks_insert_of_not_isStored (by rw [hp]; rfl)] at hx
      exact Or.inl hx

/-- **Insertion keeps the order.** -/
theorem ascending_insert (h : Ascending s.chunks) (c : Chunk) :
    Ascending (s.insert c).2.chunks := by
  cases hp : s.placement c.ts with
  | appended =>
      rw [chunks_insert_of_appended hp]
      have hall := (placement_eq_appended_iff h).mp hp
      refine Ascending.rtake (Chunk.ascending_append.mpr ⟨h, List.pairwise_singleton _ _, ?_⟩) _
      intro a ha b hb
      rw [List.mem_singleton.mp hb]
      exact hall a ha
  | prepended =>
      rw [chunks_insert_of_prepended hp]
      have hall := ((placement_eq_prepended_iff h).mp hp).2
      exact Ascending.rtake (Chunk.ascending_cons.mpr ⟨hall, h⟩) _
  | duplicate => rwa [chunks_insert_of_not_isStored (by rw [hp]; rfl)]
  | outOfOrder => rwa [chunks_insert_of_not_isStored (by rw [hp]; rfl)]

/-- Insertion keeps the store within its capacity. -/
lemma length_insert_le (h : s.length ≤ s.capacity) (c : Chunk) :
    (s.insert c).2.length ≤ s.capacity := by
  cases hp : s.placement c.ts with
  | appended => rw [length, chunks_insert_of_appended hp]; exact length_rtake_le _ _
  | prepended => rw [length, chunks_insert_of_prepended hp]; exact length_rtake_le _ _
  | duplicate => rwa [length, chunks_insert_of_not_isStored (by rw [hp]; rfl)]
  | outOfOrder => rwa [length, chunks_insert_of_not_isStored (by rw [hp]; rfl)]

end Store

end RewindRelay
