import RewindRelay.Proofs.Store.Gap
/-!
# Lookups that go forward

A lookup by time leans on durations, and nothing says what these are.  A chunk may last no time at
all, or less than that, or reach over the chunks behind it.  Then the chunk that is found need not
be the nearest one.  But if nothing is rounded, a later timestamp never finds an older chunk.

Between two starts the same two chunks are compared, and time only ever speaks for the newer one.
Past a start the newer one of the two becomes the older one.

* `Arithmetic.ideal` — rational numbers throughout, gaps included.
* `Store.indexIn`, `Store.offsetIn` — the position and the offset that are found, in any arithmetic.
* `Candidate`, `Finds` — the chunks that can be found, and all that a lookup answers.
* `Store.index_le_of_splits`, `Store.index_le_of_le` — positions go forward, between two starts and
  past them.
* `Store.finds_forward` — **a later timestamp finds no older chunk, and no larger offset.**
* `Store.finds_forward_of_nonneg` — from the epoch on, the same with gaps in 64 bits.
-/

namespace RewindRelay

open Chunk (Ascending)

/-! ## Lookup -/

/-- Rational numbers, also for the gap between two timestamps, which can always be taken. -/
def Arithmetic.ideal : Arithmetic ℚ :=
  { Arithmetic.exact with elapsed := fun first last => .ok (moment last - moment first) }

namespace Store

variable {α : Type}

/-- The position that a lookup by time finds, in any arithmetic. -/
def indexIn (A : Arithmetic α) (window : Chunk → Window α) (s : Store) (ts : Int64) :
    Except Fault (Option ℕ) :=
  nearest A (s.chunks.map window) ts

/-- The offset that a lookup by time finds, in any arithmetic. -/
def offsetIn (A : Arithmetic α) (window : Chunk → Window α) (s : Store) (ts : Int64) :
    Except Fault (Option ℕ) :=
  (s.indexIn A window ts).map fun position => position.map fun i => s.length - 1 - i

end Store

/-! ## What can be found -/

/-- The newest chunk that has started at a timestamp. -/
structure IsLatest (cs : List Chunk) (ts : Int64) (c : Chunk) : Prop where
  mem : c ∈ cs
  started : c.ts ≤ ts
  newest : ∀ d ∈ cs, d.ts ≤ ts → d.ts ≤ c.ts

/-- The chunks that a lookup can find. -/
inductive Candidate (cs : List Chunk) (ts : Int64) (c : Chunk) : Prop
  /-- The oldest chunk, if it is still to come. -/
  | oldest (first : cs.head? = some c) (ahead : ts < c.ts) : Candidate cs ts c
  /-- The newest chunk that has started. -/
  | latest (latest : IsLatest cs ts c) : Candidate cs ts c
  /-- The chunk right behind that one. -/
  | next (before : Chunk) (latest : IsLatest cs ts before) (adjacent : [before, c] <:+: cs) :
      Candidate cs ts c

/-- All that a lookup by time answers. -/
structure Finds {α : Type} (A : Arithmetic α) (window : Chunk → Window α) (s : Store) (ts : Int64)
    (c : Chunk) (k : ℕ) : Prop where
  chunk : s.atIn A window ts = .ok (some c)
  offset : s.offsetIn A window ts = .ok (some k)
  inside : k < s.length
  /-- The chunk stands at the offset. -/
  place : s.chunks[s.length - 1 - k]? = some c
  candidate : Candidate s.chunks ts c

variable {α : Type} {A : Arithmetic α} {window : Chunk → Window α}
variable {cs older newer : List Chunk} {ts t₁ t₂ : Int64} {a b c : Chunk} {i j : ℕ}

lemma Splits.isLatest (h : Splits cs ts older newer) (hasc : Ascending cs)
    (hlast : older.getLast? = some a) : IsLatest cs ts a where
  mem := by
    rw [← h.append]
    exact List.mem_append_left _ (List.mem_of_getLast? hlast)
  started := h.started a (List.mem_of_getLast? hlast)
  newest := by
    intro d hd hstarted
    rw [← h.append] at hd hasc
    rcases List.mem_append.mp hd with hd | hd
    · exact (Chunk.ascending_append.mp hasc).1.ts_le_getLast? hd hlast
    · exact absurd hstarted (Int64.not_le.mpr (h.ahead d hd))

/-- A lookup finds one of the candidates. -/
lemma Splits.exists_candidate (h : Splits cs ts older newer) (hasc : Ascending cs)
    (hw : ∀ c, (window c).start = c.ts) (hi : nearest A (cs.map window) ts = .ok (some i)) :
    ∃ c, cs[i]? = some c ∧ Candidate cs ts c := by
  rw [h.nearest_eq A hw] at hi
  split at hi
  · cases hi
  · next b hlast hfirst =>
      obtain rfl := List.getLast?_eq_none_iff.mp hlast
      have hcs : newer = cs := h.append
      cases hi
      exact ⟨b, h.getElem?_first hfirst,
        .oldest (hcs ▸ hfirst) (h.ahead b (List.mem_of_head? hfirst))⟩
  · next a hlast _ =>
      cases hi
      exact ⟨a, h.getElem?_last hlast, .latest (h.isLatest hasc hlast)⟩
  · next a b hlast hfirst =>
      have hlatest : Candidate cs ts a := .latest (h.isLatest hasc hlast)
      have henclosed : Encloses cs ts a b := (h.encloses_iff hasc).mpr ⟨hlast, hfirst⟩
      split at hi
      · cases hi
        exact ⟨a, h.getElem?_last hlast, hlatest⟩
      · obtain ⟨gap, -, hgap⟩ := Fault.map_eq_ok_iff.mp hi
        split_ifs at hgap <;> cases hgap
        · exact ⟨b, h.getElem?_first hfirst, .next a (h.isLatest hasc hlast) henclosed.adjacent⟩
        · exact ⟨a, h.getElem?_last hlast, hlatest⟩

namespace Store

variable {s : Store}

/-- Something is found by a lookup that does not fail. -/
lemma exists_finds (hasc : Ascending s.chunks) (hne : s.chunks ≠ [])
    (hw : ∀ c, (window c).start = c.ts)
    (hok : ∃ position, s.indexIn A window ts = .ok position) :
    ∃ i c, s.indexIn A window ts = .ok (some i) ∧ s.chunks[i]? = some c ∧
      Finds A window s ts c (s.length - 1 - i) := by
  obtain ⟨position, hi⟩ := hok
  cases position with
  | none => exact absurd (List.map_eq_nil_iff.mp (eq_nil_of_nearest hi)) hne
  | some i =>
      obtain ⟨c, hc, hcandidate⟩ := (hasc.splits ts).exists_candidate hasc hw hi
      have hlt : i < s.length := (List.getElem?_eq_some_iff.mp hc).1
      have hplace : s.length - 1 - (s.length - 1 - i) = i := by omega
      exact ⟨i, c, hi, hc,
        { chunk := (congrArg (Except.map (Option.bind · fun i => s.chunks[i]?)) hi).trans
            (congrArg Except.ok hc)
          offset := by rw [offsetIn, hi, Fault.map_ok, Option.map_some]
          inside := by omega
          place := by rwa [hplace]
          candidate := hcandidate }⟩

/-! ## Forward -/

/-- The two gaps decide alone.  As long as the older chunk covers the timestamp, its end is ahead,
and the gap behind it is negative. -/
lemma indexIn_ideal_eq (h : Splits s.chunks ts older newer) :
    s.indexIn .ideal Chunk.exactWindow ts =
      match older.getLast?, newer.head? with
      | none, none => .ok none
      | none, some _ => .ok (some 0)
      | some _, none => .ok (some (older.length - 1))
      | some a, some b =>
        if b.starts - moment ts < moment ts - a.ends then .ok (some older.length)
        else .ok (some (older.length - 1)) := by
  have hindex : s.indexIn .ideal Chunk.exactWindow ts = _ := h.nearest_eq .ideal (fun _ => rfl)
  rw [hindex]
  cases hlast : older.getLast? with
  | none => cases newer.head? <;> rfl
  | some a =>
      cases hfirst : newer.head? with
      | none => rfl
      | some b =>
          have hahead : moment ts < b.starts :=
            moment_lt_iff.mpr (h.ahead b (List.mem_of_head? hfirst))
          have hgap : Arithmetic.ideal.elapsed ts b.ts = .ok (b.starts - moment ts) := rfl
          have hgaps : Arithmetic.ideal.lt (b.starts - moment ts)
              (Arithmetic.ideal.sub (Arithmetic.ideal.ofTime ts) (a.exactWindow.stop .ideal)) =
              decide (b.starts - moment ts < moment ts - a.ends) := rfl
          have hcovers : a.exactWindow.covers .ideal ts = a.spans ts := rfl
          simp only [hgap, hgaps, hcovers, Fault.map_ok, decide_eq_true_eq]
          cases hspans : a.spans ts with
          | false => rw [if_neg Bool.false_ne_true, apply_ite Except.ok]
          | true =>
              have hended := (Chunk.spans_iff.mp hspans).2
              rw [if_pos rfl, if_neg (by linarith)]

/-- A lookup without rounding never fails. -/
lemma exists_index_ideal (hasc : Ascending s.chunks) (ts : Int64) :
    ∃ position, s.indexIn .ideal Chunk.exactWindow ts = .ok position := by
  rw [indexIn_ideal_eq (hasc.splits ts)]
  split
  · exact ⟨_, rfl⟩
  · exact ⟨_, rfl⟩
  · exact ⟨_, rfl⟩
  · split <;> exact ⟨_, rfl⟩

/-- Between two starts time only ever speaks for the newer of the two chunks. -/
lemma index_le_of_splits (h₁ : Splits s.chunks t₁ older newer) (h₂ : Splits s.chunks t₂ older newer)
    (h : t₁ ≤ t₂) (hi : s.indexIn .ideal Chunk.exactWindow t₁ = .ok (some i))
    (hj : s.indexIn .ideal Chunk.exactWindow t₂ = .ok (some j)) : i ≤ j := by
  rw [indexIn_ideal_eq h₁] at hi
  rw [indexIn_ideal_eq h₂] at hj
  cases hlast : older.getLast? with
  | none =>
      rw [hlast] at hi
      cases hfirst : newer.head? with
      | none =>
          rw [hfirst] at hi
          cases hi
      | some b =>
          rw [hfirst] at hi
          cases hi
          exact Nat.zero_le j
  | some a =>
      cases hfirst : newer.head? with
      | none =>
          simp only [hlast, hfirst] at hi hj
          cases hi
          cases hj
          exact le_rfl
      | some b =>
          simp only [hlast, hfirst] at hi hj
          have hmoments : moment t₁ ≤ moment t₂ := moment_le_iff.mpr h
          by_cases hpassed : b.starts - moment t₁ < moment t₁ - a.ends
          · rw [if_pos hpassed] at hi
            rw [if_pos (by linarith)] at hj
            cases hi
            cases hj
            exact le_rfl
          · rw [if_neg hpassed] at hi
            cases hi
            split_ifs at hj <;> cases hj <;> omega

/-- **Positions go forward.** -/
lemma index_le_of_le (hasc : Ascending s.chunks) (h : t₁ ≤ t₂)
    (hi : s.indexIn .ideal Chunk.exactWindow t₁ = .ok (some i))
    (hj : s.indexIn .ideal Chunk.exactWindow t₂ = .ok (some j)) : i ≤ j := by
  have h₁ := hasc.splits t₁
  have h₂ := hasc.splits t₂
  have hprefix := h₁.isPrefix h₂ h
  by_cases hlen : (s.chunks.takeWhile fun c => c.ts ≤ t₁).length =
      (s.chunks.takeWhile fun c => c.ts ≤ t₂).length
  · -- no chunk starts between the two
    have holder := hprefix.eq_of_length hlen
    have hnewer := h₁.append.trans h₂.append.symm
    rw [holder] at h₁ hnewer
    rw [List.append_cancel_left hnewer] at h₁
    exact index_le_of_splits h₁ h₂ h hi hj
  · -- a chunk starts between the two: no later one is found first, and no older one afterwards
    have hupper := (h₁.nearest_bounds (fun _ => rfl) hi).2
    have hlower := (h₂.nearest_bounds (fun _ => rfl) hj).1
    have hlt := hprefix.length_le
    omega

/-- The chunks and the offsets at positions that go forward. -/
lemma exists_finds_of_le (hasc : Ascending s.chunks) (hne : s.chunks ≠ [])
    (hw : ∀ c, (window c).start = c.ts)
    (hok₁ : ∃ position, s.indexIn A window t₁ = .ok position)
    (hok₂ : ∃ position, s.indexIn A window t₂ = .ok position)
    (hle : ∀ i j, s.indexIn A window t₁ = .ok (some i) → s.indexIn A window t₂ = .ok (some j) →
      i ≤ j) :
    ∃ c₁ k₁ c₂ k₂, Finds A window s t₁ c₁ k₁ ∧ Finds A window s t₂ c₂ k₂ ∧
      c₁.ts ≤ c₂.ts ∧ k₂ ≤ k₁ := by
  obtain ⟨i, c₁, hi, hc₁, hfinds₁⟩ := exists_finds hasc hne hw hok₁
  obtain ⟨j, c₂, hj, hc₂, hfinds₂⟩ := exists_finds hasc hne hw hok₂
  have hij := hle i j hi hj
  exact ⟨c₁, _, c₂, _, hfinds₁, hfinds₂, hasc.ts_le_of_le hc₁ hc₂ hij, Nat.sub_le_sub_left hij _⟩

/-- **A later timestamp finds no older chunk.**  Whatever the chunks of a store last, every
timestamp finds the oldest chunk, the newest that has started or the one right behind it; and of two
timestamps the later one finds a chunk that is at least as new, at an offset that is at most as
large. -/
theorem finds_forward (hasc : Ascending s.chunks) (hne : s.chunks ≠ []) (h : t₁ ≤ t₂) :
    ∃ c₁ k₁ c₂ k₂, Finds .ideal Chunk.exactWindow s t₁ c₁ k₁ ∧
      Finds .ideal Chunk.exactWindow s t₂ c₂ k₂ ∧ c₁.ts ≤ c₂.ts ∧ k₂ ≤ k₁ :=
  exists_finds_of_le hasc hne (fun _ => rfl) (exists_index_ideal hasc t₁)
    (exists_index_ideal hasc t₂) fun _ _ => index_le_of_le hasc h

/-- A chunk that ends before it starts, one that lasts no time, and one that reaches over the one
behind it. -/
def uneven : Store :=
  { chunks := [⟨0, -500, [0], none⟩, ⟨1000, 0, [1], none⟩, ⟨2000, 5000, [2], none⟩,
      ⟨3000, 1000, [3], none⟩]
    capacity := 4 }

/-- The first of them is left before half the time to the next one is over. -/
theorem finds_uneven :
    (uneven.atIn .ideal Chunk.exactWindow 200).map (Option.map Chunk.ts) = .ok (some 0) ∧
      (uneven.atIn .ideal Chunk.exactWindow 300).map (Option.map Chunk.ts) = .ok (some 1000) ∧
      ∃ c₁ k₁ c₂ k₂, Finds .ideal Chunk.exactWindow uneven 200 c₁ k₁ ∧
        Finds .ideal Chunk.exactWindow uneven 300 c₂ k₂ ∧ c₁.ts ≤ c₂.ts ∧ k₂ ≤ k₁ :=
  ⟨by decide +kernel, by decide +kernel,
    finds_forward (by decide +kernel) (List.cons_ne_nil _ _) (by decide)⟩

/-! ## Gaps in 64 bits -/

lemma elapsed_of_not_isFar (hlt : ts < c.ts) (h : ¬ IsFar ts c) :
    Arithmetic.exact.elapsed ts c.ts = Arithmetic.ideal.elapsed ts c.ts := by
  have hless := Int64.lt_iff_toInt_lt.mp hlt
  unfold IsFar at h
  exact elapsed_of_fits (by omega) (by omega)

/-- Where the gap to the next chunk fits, it does not matter that it is taken in 64 bits. -/
lemma indexIn_exact_eq (hasc : Ascending s.chunks)
    (h : ∀ a b, Encloses s.chunks ts a b → ¬ IsFar ts b) :
    s.indexIn .exact Chunk.exactWindow ts = s.indexIn .ideal Chunk.exactWindow ts := by
  have hsplits := hasc.splits ts
  have hexact : s.indexIn .exact Chunk.exactWindow ts = _ :=
    hsplits.nearest_eq .exact (fun _ => rfl)
  have hideal : s.indexIn .ideal Chunk.exactWindow ts = _ :=
    hsplits.nearest_eq .ideal (fun _ => rfl)
  rw [hexact, hideal]
  cases hlast : (s.chunks.takeWhile fun c => c.ts ≤ ts).getLast? with
  | none => cases (s.chunks.dropWhile fun c => c.ts ≤ ts).head? <;> rfl
  | some a =>
      cases hfirst : (s.chunks.dropWhile fun c => c.ts ≤ ts).head? with
      | none => rfl
      | some b =>
          have henclosed := (hsplits.encloses_iff hasc).mpr ⟨hlast, hfirst⟩
          simp only [elapsed_of_not_isFar henclosed.ahead (h a b henclosed)]
          rfl

/-- **From the epoch on** lookups go forward even though gaps are taken in 64 bits, and none of them
fails. -/
theorem finds_forward_of_nonneg (hasc : Ascending s.chunks) (hne : s.chunks ≠ []) (h₀ : 0 ≤ t₁)
    (h : t₁ ≤ t₂) :
    ∃ c₁ k₁ c₂ k₂, Finds .exact Chunk.exactWindow s t₁ c₁ k₁ ∧
      Finds .exact Chunk.exactWindow s t₂ c₂ k₂ ∧ c₁.ts ≤ c₂.ts ∧ k₂ ≤ k₁ := by
  have h₁ : s.indexIn .exact Chunk.exactWindow t₁ = _ :=
    indexIn_exact_eq hasc fun _ _ _ => not_isFar_of_nonneg h₀
  have h₂ : s.indexIn .exact Chunk.exactWindow t₂ = _ :=
    indexIn_exact_eq hasc fun _ _ _ => not_isFar_of_nonneg (Int64.le_trans h₀ h)
  refine exists_finds_of_le hasc hne (fun _ => rfl) (h₁ ▸ exists_index_ideal hasc t₁)
    (h₂ ▸ exists_index_ideal hasc t₂) ?_
  intro i j hi hj
  rw [h₁] at hi
  rw [h₂] at hj
  exact index_le_of_le hasc h hi hj

end Store

end RewindRelay
