import RewindRelay.Proofs.Store.Order
import RewindRelay.Store.Lookup
/-!
# The place of a timestamp

A timestamp divides the chunks of a store.  Those that have started come first, those that are still
to come behind them.  A lookup by time compares the two chunks where these meet, so what is said
about lookups begins with this cut.

* `timeBetween_of_fits` — gaps that can be taken.
* `lt_of_nearest`, `eq_nil_of_nearest` — a lookup that does not fail finds one of the windows if
  there are any.
* `Splits` — the cut.
* `Chunk.Ascending.splits`, `Splits.isPrefix` — every timestamp cuts chunks in order, and a later
  one cuts later.
* `Splits.nearest_eq`, `Splits.nearest_bounds` — **the two chunks that are compared.**
-/

namespace RewindRelay

open Chunk (Ascending)

/-! ## Steps that can fail -/

namespace Fault

variable {α β : Type} {f : α → β} {x : Except Fault α}

@[simp] lemma map_ok (f : α → β) (a : α) : (Except.ok a : Except Fault α).map f = .ok (f a) := rfl

@[simp] lemma map_error (f : α → β) (e : Fault) :
    (Except.error e : Except Fault α).map f = .error e := rfl

lemma map_eq_ok_iff {b : β} : x.map f = .ok b ↔ ∃ a, x = .ok a ∧ f a = b := by
  cases x <;> simp

lemma map_eq_error_iff {e : Fault} : x.map f = .error e ↔ x = .error e := by
  cases x <;> simp

end Fault

/-- The time from one timestamp to another can be taken if it fits into 64 bits. -/
lemma timeBetween_of_fits {first last : Int64} (hmin : -2 ^ 63 ≤ last.toInt - first.toInt)
    (hmax : last.toInt - first.toInt < 2 ^ 63) :
    timeBetween first last = .ok (last - first) ∧
      (last - first).toInt = last.toInt - first.toInt := by
  have hleast := Int64.toInt_minValue
  have hgreatest := Int64.toInt_maxValue
  refine ⟨if_pos (by omega), ?_⟩
  rw [Int64.toInt_sub]
  exact Int.bmod_eq_of_le (by omega) (by omega)

/-! ## Positions -/

/-- A position that is found by time is one of the windows. -/
lemma lt_of_nearest {α : Type} {A : Arithmetic α} {windows : List (Window α)} {ts : Int64} {i : ℕ}
    (h : nearest A windows ts = .ok (some i)) : i < windows.length := by
  have hpast := (List.takeWhile_prefix (l := windows) fun w => w.start ≤ ts).length_le
  unfold nearest at h
  generalize (windows.takeWhile fun w => w.start ≤ ts) = past at h hpast
  simp only at h
  have hpos : ∀ {w : Window α}, past.getLast? = some w → 0 < past.length := by
    intro w hw
    exact List.length_pos_of_mem (List.mem_of_getLast? hw)
  have hnext : ∀ {w : Window α}, (windows.drop past.length).head? = some w →
      past.length < windows.length := by
    intro w hw
    have hlen := List.length_pos_of_mem (List.mem_of_head? hw)
    rw [List.length_drop] at hlen
    omega
  split at h
  · cases h
  · next hafter =>
      cases h
      exact Nat.lt_of_le_of_lt (Nat.zero_le _) (hnext hafter)
  · next hbefore _ =>
      have hlen := hpos hbefore
      cases h
      omega
  · next hbefore hafter =>
      have hlen := hpos hbefore
      have hroom := hnext hafter
      split at h
      · cases h
        omega
      · obtain ⟨gap, -, hgap⟩ := Fault.map_eq_ok_iff.mp h
        split_ifs at hgap <;> cases hgap <;> omega

/-- Every time is found, as long as there are windows and the lookup does not fail. -/
lemma eq_nil_of_nearest {α : Type} {A : Arithmetic α} {windows : List (Window α)} {ts : Int64}
    (h : nearest A windows ts = .ok none) : windows = [] := by
  unfold nearest at h
  simp only at h
  split at h
  · next hpast hrest =>
      rw [List.getLast?_eq_none_iff.mp hpast, List.length_nil, List.drop_zero] at hrest
      exact List.head?_eq_none_iff.mp hrest
  · cases h
  · cases h
  · split at h
    · cases h
    · obtain ⟨gap, -, hgap⟩ := Fault.map_eq_ok_iff.mp h
      split_ifs at hgap

/-! ## The cut -/

/-- The chunks that have started at a timestamp, and those that are still to come. -/
structure Splits (cs : List Chunk) (ts : Int64) (older newer : List Chunk) : Prop where
  append : older ++ newer = cs
  started : ∀ a ∈ older, a.ts ≤ ts
  ahead : ∀ b ∈ newer, ts < b.ts

variable {cs older newer : List Chunk} {ts : Int64}

lemma Chunk.Ascending.splits (h : Ascending cs) (ts : Int64) :
    Splits cs ts (cs.takeWhile fun c => c.ts ≤ ts) (cs.dropWhile fun c => c.ts ≤ ts) where
  append := List.takeWhile_append_dropWhile
  started := by
    intro a ha
    simpa using List.mem_takeWhile_imp ha
  ahead := by
    intro b hb
    exact h.ts_lt_of_mem_dropWhile hb

namespace Splits

lemma takeWhile_eq (h : Splits cs ts older newer) :
    cs.takeWhile (fun c => c.ts ≤ ts) = older := by
  have hnewer : newer.takeWhile (fun c => c.ts ≤ ts) = [] := by
    cases newer with
    | nil => rfl
    | cons b rest =>
        have hb : ¬ b.ts ≤ ts := Int64.not_le.mpr (h.ahead b List.mem_cons_self)
        exact List.takeWhile_cons_of_neg (by simpa using hb)
  rw [← h.append, List.takeWhile_append_of_pos (by simpa using h.started), hnewer,
    List.append_nil]

lemma dropWhile_eq (h : Splits cs ts older newer) :
    cs.dropWhile (fun c => c.ts ≤ ts) = newer := by
  have hcut := List.takeWhile_append_dropWhile (p := fun c : Chunk => c.ts ≤ ts) (l := cs)
  rw [h.takeWhile_eq, ← h.append] at hcut
  rw [← h.append]
  exact List.append_cancel_left hcut

lemma indexAfter_eq {s : Store} (h : Splits s.chunks ts older newer) :
    s.indexAfter ts = older.length := by
  rw [Store.indexAfter, h.takeWhile_eq]

lemma getElem?_last (h : Splits cs ts older newer) {a : Chunk} (hlast : older.getLast? = some a) :
    cs[older.length - 1]? = some a := by
  have hpos := List.length_pos_of_mem (List.mem_of_getLast? hlast)
  rw [← h.append, List.getElem?_append_left (by omega), ← List.getLast?_eq_getElem?, hlast]

lemma getElem?_first (h : Splits cs ts older newer) {b : Chunk} (hfirst : newer.head? = some b) :
    cs[older.length]? = some b := by
  rw [← h.append, List.getElem?_append_right le_rfl, Nat.sub_self, ← List.head?_eq_getElem?, hfirst]

/-- A later timestamp cuts later. -/
lemma isPrefix {t₁ t₂ : Int64} {older₁ newer₁ older₂ newer₂ : List Chunk}
    (h₁ : Splits cs t₁ older₁ newer₁) (h₂ : Splits cs t₂ older₂ newer₂) (hle : t₁ ≤ t₂) :
    older₁ <+: older₂ := by
  have hsame : older₂.takeWhile (fun c => c.ts ≤ t₁) = older₁ := by
    rw [← h₁.takeWhile_eq, ← h₂.takeWhile_eq, List.takeWhile_takeWhile]
    congr 1
    funext c
    simp only [decide_eq_true_eq, decide_eq_decide, and_iff_left_iff_imp]
    exact fun hc => Int64.le_trans hc hle
  rw [← hsame]
  exact List.takeWhile_prefix _

/-- **The two chunks that are compared**: the last one that has started, and the first one that is
still to come. -/
theorem nearest_eq {α : Type} (h : Splits cs ts older newer) (A : Arithmetic α)
    {window : Chunk → Window α} (hw : ∀ c, (window c).start = c.ts) :
    nearest A (cs.map window) ts =
      match older.getLast?, newer.head? with
      | none, none => .ok none
      | none, some _ => .ok (some 0)
      | some _, none => .ok (some (older.length - 1))
      | some before, some after =>
        if (window before).covers A ts then .ok (some (older.length - 1))
        else (A.elapsed ts after.ts).map fun gap =>
          if A.lt gap (A.sub (A.ofTime ts) ((window before).stop A)) then some older.length
          else some (older.length - 1) := by
  have hpast : (cs.map window).takeWhile (fun w => w.start ≤ ts) = older.map window := by
    rw [List.takeWhile_map, ← h.takeWhile_eq]
    congr 2
    funext c
    simp only [Function.comp_apply, hw]
  have hrest : (cs.map window).drop older.length = newer.map window := by
    rw [← h.append, List.map_append, List.drop_left' (List.length_map window)]
  simp only [nearest, hpast, List.length_map, hrest, List.getLast?_map, List.head?_map]
  cases older.getLast? <;> cases newer.head? <;> simp only [Option.map_none, Option.map_some, hw]

/-- One of these two is found. -/
lemma nearest_bounds {α : Type} (h : Splits cs ts older newer) {A : Arithmetic α}
    {window : Chunk → Window α} (hw : ∀ c, (window c).start = c.ts) {i : ℕ}
    (hi : nearest A (cs.map window) ts = .ok (some i)) :
    older.length - 1 ≤ i ∧ i ≤ older.length := by
  rw [h.nearest_eq A hw] at hi
  split at hi
  · cases hi
  · next hlast _ =>
      rw [List.getLast?_eq_none_iff.mp hlast]
      cases hi
      exact ⟨le_rfl, le_rfl⟩
  · cases hi
    omega
  · split at hi
    · cases hi
      omega
    · obtain ⟨gap, -, hgap⟩ := Fault.map_eq_ok_iff.mp hi
      split_ifs at hgap <;> cases hgap <;> omega

end Splits

end RewindRelay
