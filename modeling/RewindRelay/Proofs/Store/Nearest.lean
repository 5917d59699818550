import Mathlib.Data.List.Chain
import RewindRelay.Proofs.Store.Place
/-!
# The nearest chunk

A timestamp is looked up by its place among the chunks, and then only the chunks at either side of
it are compared.  If the chunks do not overlap and every gap is computed without rounding, this is
as good as going through all of them: no other chunk can cover the timestamp or be nearer.

* `Arithmetic.exact`, `Chunk.exactWindow` — time as rational numbers.
* `Store.atIn`, `Store.atIn_eq` — the chunk that a lookup by time finds, in any arithmetic.
* `Store.scan` — the search through all chunks.
* `Fits`, `Fits.eq` — the chunk that is wanted, of which there is only one.
* `Store.atIn_exact_eq_scan` — **both find it.**
-/

namespace RewindRelay

open Chunk (Ascending)
open Decimal (Binary)

/-! ## Exact arithmetic -/

/-- The value of a double, if it is a number. -/
def Decimal.Binary.value : Binary → ℚ
  | .finite negative significand exponent =>
    (if negative then -1 else 1) * significand * 2 ^ exponent
  | .nan | .infinite _ => 0

/-- Rational numbers.  The gap between two timestamps is taken in 64-bit integers all the same, and
has to fit. -/
def Arithmetic.exact : Arithmetic ℚ where
  ofTime t := t.toInt
  elapsed first last := (timeBetween first last).map fun gap => gap.toInt
  ofCount n := n
  add x y := x + y
  sub x y := x - y
  mul x y := x * y
  div x y := x / y
  le x y := decide (x ≤ y)
  lt x y := decide (x < y)
  nearestCount x := min Decimal.maxCount ⌊x + 1 / 2⌋.toNat

/-- A timestamp as a rational number. -/
def moment (ts : Int64) : ℚ := Arithmetic.exact.ofTime ts

lemma moment_lt_iff {a b : Int64} : moment a < moment b ↔ a < b := by
  rw [Int64.lt_iff_toInt_lt]
  exact Int.cast_lt

lemma moment_le_iff {a b : Int64} : moment a ≤ moment b ↔ a ≤ b := by
  rw [Int64.le_iff_toInt_le]
  exact Int.cast_le

/-- Timestamps of this size are the same in doubles. -/
def IsShort (ts : Int64) : Prop := |ts.toInt| < 2 ^ 53

instance (ts : Int64) : Decidable (IsShort ts) := inferInstanceAs (Decidable (_ < _))

/-- A gap that fits is exact. -/
lemma elapsed_of_fits {first last : Int64} (hmin : -2 ^ 63 ≤ last.toInt - first.toInt)
    (hmax : last.toInt - first.toInt < 2 ^ 63) :
    Arithmetic.exact.elapsed first last = .ok (moment last - moment first) := by
  obtain ⟨hgap, hsub⟩ := timeBetween_of_fits hmin hmax
  simp only [Arithmetic.exact, moment, hgap, Fault.map_ok, hsub, Int.cast_sub]

lemma elapsed_of_isShort {first last : Int64} (hf : IsShort first) (hl : IsShort last) :
    Arithmetic.exact.elapsed first last = .ok (moment last - moment first) := by
  obtain ⟨hf₁, hf₂⟩ := abs_lt.mp hf
  obtain ⟨hl₁, hl₂⟩ := abs_lt.mp hl
  exact elapsed_of_fits (by omega) (by omega)

namespace Chunk

/-- The time a chunk covers, with the value of its duration. -/
def exactWindow (c : Chunk) : Window ℚ := ⟨c.ts, (Binary.ofFloat c.duration).value⟩

def starts (c : Chunk) : ℚ := moment c.ts

def ends (c : Chunk) : ℚ := c.exactWindow.stop .exact

/-- Does the chunk cover the timestamp? -/
def spans (c : Chunk) (ts : Int64) : Bool := c.exactWindow.covers .exact ts

/-- How far a timestamp is from the nearer edge of a chunk. -/
def edgeDistance (c : Chunk) (ts : Int64) : ℚ :=
  min |moment ts - c.starts| |moment ts - c.ends|

variable {c : Chunk} {ts : Int64}

lemma spans_iff : c.spans ts = true ↔ c.starts ≤ moment ts ∧ moment ts < c.ends := by
  rw [spans, Window.covers, Bool.and_eq_true]
  exact and_congr decide_eq_true_iff decide_eq_true_iff

lemma spans_of_lt (h : ts < c.ts) : c.spans ts = false := by
  rw [Bool.eq_false_iff, ne_eq, spans_iff, not_and_or, not_le]
  exact Or.inl (moment_lt_iff.mpr h)

lemma spans_of_ends_le (h : c.ends ≤ moment ts) : c.spans ts = false := by
  rw [Bool.eq_false_iff, ne_eq, spans_iff, not_and_or, not_lt]
  exact Or.inr h

lemma ends_le_of_spans_eq_false (h : c.ts ≤ ts) (hnot : c.spans ts = false) :
    c.ends ≤ moment ts := by
  by_contra hends
  rw [spans_iff.mpr ⟨moment_le_iff.mpr h, not_le.mp hends⟩] at hnot
  cases hnot

/-- A chunk that starts later. -/
lemma edgeDistance_of_lt (hpos : c.starts < c.ends) (h : moment ts < c.starts) :
    c.edgeDistance ts = c.starts - moment ts := by
  rw [edgeDistance, abs_of_neg (by linarith), abs_of_neg (by linarith), min_eq_left (by linarith)]
  ring

/-- A chunk that has ended. -/
lemma edgeDistance_of_le (hpos : c.starts < c.ends) (h : c.ends ≤ moment ts) :
    c.edgeDistance ts = moment ts - c.ends := by
  rw [edgeDistance, abs_of_nonneg (by linarith), abs_of_nonneg (by linarith),
    min_eq_right (by linarith)]

end Chunk

/-! ## Lookup -/

namespace Store

variable {α : Type}

/-- The lookup by time, in any arithmetic. -/
def atIn (A : Arithmetic α) (window : Chunk → Window α) (s : Store) (ts : Int64) :
    Except Fault (Option Chunk) :=
  (nearest A (s.chunks.map window) ts).map fun position => position.bind fun i => s.chunks[i]?

/-- The chunk that is found is one of the two that are compared. -/
lemma atIn_eq (A : Arithmetic α) {window : Chunk → Window α} (hw : ∀ c, (window c).start = c.ts)
    {s : Store} {ts : Int64} {older newer : List Chunk} (h : Splits s.chunks ts older newer) :
    s.atIn A window ts =
      match older.getLast?, newer.head? with
      | none, after => .ok after
      | some before, none => .ok (some before)
      | some before, some after =>
        if (window before).covers A ts then .ok (some before)
        else (A.elapsed ts after.ts).map fun gap =>
          if A.lt gap (A.sub (A.ofTime ts) ((window before).stop A)) then some after
          else some before := by
  rw [atIn, h.nearest_eq A hw]
  cases hlast : older.getLast? with
  | none =>
      obtain rfl := List.getLast?_eq_none_iff.mp hlast
      cases hfirst : newer.head? with
      | none => rfl
      | some after => exact congrArg Except.ok (h.getElem?_first hfirst)
  | some before =>
      cases hfirst : newer.head? with
      | none => exact congrArg Except.ok (h.getElem?_last hlast)
      | some after =>
          simp only
          split
          · exact congrArg Except.ok (h.getElem?_last hlast)
          · cases A.elapsed ts after.ts with
            | error e => rfl
            | ok gap =>
                simp only [Fault.map_ok]
                split
                · exact congrArg Except.ok (h.getElem?_first hfirst)
                · exact congrArg Except.ok (h.getElem?_last hlast)

/-- The nearer of two chunks, the first one if there is nothing between them. -/
def nearer (ts : Int64) : Option Chunk → Chunk → Option Chunk
  | none, c => some c
  | some best, c => if best.edgeDistance ts ≤ c.edgeDistance ts then some best else some c

/-- The search through all chunks: the one that covers the timestamp, or else the one with the
nearest edge. -/
def scan (s : Store) (ts : Int64) : Option Chunk :=
  (s.chunks.find? fun c => c.spans ts).or (s.chunks.foldl (nearer ts) none)

end Store

/-! ## The chunk that is wanted -/

/-- Chunks that do not overlap. -/
structure Apart (cs : List Chunk) : Prop where
  positive : ∀ c ∈ cs, c.starts < c.ends
  chain : cs.IsChain fun a b => a.ends ≤ b.starts

/-- No chunk is nearer to the timestamp, and none that is as near is older. -/
structure IsNearest (cs : List Chunk) (ts : Int64) (c : Chunk) : Prop where
  mem : c ∈ cs
  nearest : ∀ d ∈ cs, c.edgeDistance ts ≤ d.edgeDistance ts
  older : ∀ d ∈ cs, d.edgeDistance ts = c.edgeDistance ts → c.ts ≤ d.ts

/-- The chunk covers the timestamp, or no chunk does and it is the nearest. -/
inductive Fits (cs : List Chunk) (ts : Int64) (c : Chunk) : Prop
  | covers (mem : c ∈ cs) (spans : c.spans ts = true) : Fits cs ts c
  | nearest (uncovered : ∀ d ∈ cs, d.spans ts = false) (nearest : IsNearest cs ts c) : Fits cs ts c

variable {cs older newer : List Chunk} {ts : Int64} {c d : Chunk}

lemma Apart.pairwise (h : Apart cs) : cs.Pairwise fun a b => a.ends ≤ b.starts := by
  have hchain : cs.IsChain fun a b => a.ends ≤ b.starts ∧ b.starts < b.ends :=
    h.chain.imp_of_mem_imp fun a b _ hb hab => ⟨hab, h.positive b hb⟩
  have htrans : IsTrans Chunk fun a b => a.ends ≤ b.starts ∧ b.starts < b.ends :=
    ⟨fun a b c hab hbc => ⟨by linarith [hab.1, hab.2, hbc.1], hbc.2⟩⟩
  exact (List.isChain_iff_pairwise.mp hchain).imp fun hab => hab.1

lemma Apart.ascending (h : Apart cs) : Ascending cs := by
  refine h.pairwise.imp_of_mem fun ha _ hab => ?_
  rw [← moment_lt_iff]
  exact (h.positive _ ha).trans_le hab

lemma Apart.append (h : Apart (older ++ newer)) :
    Apart older ∧ Apart newer ∧ ∀ a ∈ older, ∀ b ∈ newer, a.ends ≤ b.starts :=
  ⟨⟨fun a ha => h.positive a (List.mem_append_left _ ha), h.chain.left_of_append⟩,
    ⟨fun a ha => h.positive a (List.mem_append_right _ ha), h.chain.right_of_append⟩,
    (List.pairwise_append.mp h.pairwise).2.2⟩

/-- Of two chunks that cover a timestamp neither comes before the other. -/
lemma Apart.eq_of_spans (h : Apart cs) (hc : c ∈ cs) (hd : d ∈ cs) (hcs : c.spans ts = true)
    (hds : d.spans ts = true) : c = d := by
  by_contra hne
  have hdisjoint : cs.Pairwise fun a b => ¬ (a.spans ts = true ∧ b.spans ts = true) :=
    h.pairwise.imp fun hab => by
      rintro ⟨ha, hb⟩
      linarith [(Chunk.spans_iff.mp ha).2, (Chunk.spans_iff.mp hb).1]
  have : Std.Symm fun a b : Chunk => ¬ (a.spans ts = true ∧ b.spans ts = true) :=
    ⟨fun _ _ hab hba => hab hba.symm⟩
  exact hdisjoint.forall hc hd hne ⟨hcs, hds⟩

/-- **There is only one.** -/
lemma Fits.eq (h : Apart cs) (hc : Fits cs ts c) (hd : Fits cs ts d) : c = d := by
  cases hc with
  | covers hmem hspans =>
      cases hd with
      | covers hmem' hspans' => exact h.eq_of_spans hmem hmem' hspans hspans'
      | nearest uncovered _ => rw [uncovered c hmem] at hspans; cases hspans
  | nearest uncovered hnearest =>
      cases hd with
      | covers hmem' hspans' => rw [uncovered d hmem'] at hspans'; cases hspans'
      | nearest _ hnearest' =>
          have hsame := le_antisymm (hnearest.nearest d hnearest'.mem)
            (hnearest'.nearest c hnearest.mem)
          exact h.ascending.eq_of_ts_eq hnearest.mem hnearest'.mem
            (Int64.le_antisymm (hnearest.older d hnearest'.mem hsame.symm)
              (hnearest'.older c hnearest.mem hsame))

/-! ## The nearest chunk -/

lemma isNearest_singleton (c : Chunk) (ts : Int64) : IsNearest [c] ts c where
  mem := List.mem_cons_self
  nearest := fun d hd => by rw [List.mem_singleton.mp hd]
  older := fun d hd _ => by rw [List.mem_singleton.mp hd]; exact Int64.le_rfl

/-- The nearest of older chunks, and the nearest of newer ones: one of them is the nearest of
all. -/
lemma IsNearest.append (hc : IsNearest older ts c) (hd : IsNearest newer ts d)
    (hlt : ∀ a ∈ older, ∀ b ∈ newer, a.ts < b.ts) :
    IsNearest (older ++ newer) ts (if c.edgeDistance ts ≤ d.edgeDistance ts then c else d) := by
  split
  · next hle =>
      refine ⟨List.mem_append_left _ hc.mem, fun x hx => ?_, fun x hx hsame => ?_⟩ <;>
        rcases List.mem_append.mp hx with hx | hx
      · exact hc.nearest x hx
      · exact hle.trans (hd.nearest x hx)
      · exact hc.older x hx hsame
      · exact Int64.le_of_lt (hlt c hc.mem x hx)
  · next hnot =>
      have hnear : d.edgeDistance ts < c.edgeDistance ts := not_le.mp hnot
      refine ⟨List.mem_append_right _ hd.mem, fun x hx => ?_, fun x hx hsame => ?_⟩ <;>
        rcases List.mem_append.mp hx with hx | hx
      · exact hnear.le.trans (hc.nearest x hx)
      · exact hd.nearest x hx
      · exact absurd (hc.nearest x hx) (by rw [hsame]; exact not_le.mpr hnear)
      · exact hd.older x hx hsame

/-- If the last of the chunks that have started does not cover the timestamp, all have ended. -/
lemma Apart.ends_le (h : Apart older) (hpast : ∀ a ∈ older, a.ts ≤ ts)
    (hlast : older.getLast? = some c) (hnot : c.spans ts = false) :
    ∀ a ∈ older, a.ends ≤ moment ts := by
  have hstarted : c.ts ≤ ts := hpast c (List.mem_of_getLast? hlast)
  obtain ⟨front, rfl⟩ := List.getLast?_eq_some_iff.mp hlast
  intro a ha
  rcases List.mem_append.mp ha with hfront | hmem
  · exact (h.append.2.2 a hfront c List.mem_cons_self).trans (moment_le_iff.mpr hstarted)
  · rw [List.mem_singleton.mp hmem]
    exact Chunk.ends_le_of_spans_eq_false hstarted hnot

/-- Of chunks that have ended the last one is the nearest. -/
lemma isNearest_getLast? (h : Apart older) (hpast : ∀ a ∈ older, a.ends ≤ moment ts)
    (hlast : older.getLast? = some c) : IsNearest older ts c := by
  obtain ⟨front, rfl⟩ := List.getLast?_eq_some_iff.mp hlast
  have hmem : c ∈ front ++ [c] := List.mem_append_right _ List.mem_cons_self
  have hdistance : ∀ a ∈ front ++ [c], a.edgeDistance ts = moment ts - a.ends := fun a ha =>
    Chunk.edgeDistance_of_le (h.positive a ha) (hpast a ha)
  have hfront : ∀ a ∈ front, a.ends < c.ends := fun a ha =>
    (h.append.2.2 a ha c List.mem_cons_self).trans_lt (h.positive c hmem)
  refine ⟨hmem, fun a ha => ?_, fun a ha hsame => ?_⟩ <;>
    rcases List.mem_append.mp ha with hold | hnew
  · rw [hdistance c hmem, hdistance a ha]
    linarith [hfront a hold]
  · rw [List.mem_singleton.mp hnew]
  · rw [hdistance c hmem, hdistance a ha] at hsame
    linarith [hfront a hold]
  · rw [List.mem_singleton.mp hnew]
    exact Int64.le_rfl

/-- Of chunks that are still to come the first one is the nearest. -/
lemma isNearest_head? (h : Apart newer) (hfuture : ∀ a ∈ newer, ts < a.ts)
    (hfirst : newer.head? = some c) : IsNearest newer ts c := by
  have hmem : c ∈ newer := List.mem_of_head? hfirst
  have hdistance : ∀ a ∈ newer, a.edgeDistance ts = a.starts - moment ts := fun a ha =>
    Chunk.edgeDistance_of_lt (h.positive a ha) (moment_lt_iff.mpr (hfuture a ha))
  refine ⟨hmem, fun a ha => ?_, fun a ha _ => h.ascending.head?_ts_le ha hfirst⟩
  have hle : c.starts ≤ a.starts := moment_le_iff.mpr (h.ascending.head?_ts_le ha hfirst)
  rw [hdistance c hmem, hdistance a ha]
  linarith

namespace Store

/-- The nearest of the chunks that have been seen. -/
lemma exists_nearest {cs : List Chunk} (h : Ascending cs) (hne : cs ≠ []) (ts : Int64) :
    ∃ c, cs.foldl (nearer ts) none = some c ∧ IsNearest cs ts c := by
  induction cs using List.reverseRecOn with
  | nil => exact absurd rfl hne
  | append_singleton seen c ih =>
      obtain ⟨hseen, -, hlt⟩ := Chunk.ascending_append.mp h
      rw [List.foldl_append]
      by_cases hnil : seen = []
      · subst hnil
        exact ⟨c, rfl, isNearest_singleton c ts⟩
      · obtain ⟨best, hbest, hnearest⟩ := ih hseen hnil
        refine ⟨_, ?_, hnearest.append (isNearest_singleton c ts) hlt⟩
        rw [hbest, List.foldl_cons, List.foldl_nil, nearer]
        split <;> rfl

/-- **The search through all chunks finds the one that is wanted.** -/
lemma exists_scan {s : Store} (h : Apart s.chunks) (hne : s.chunks ≠ []) (ts : Int64) :
    ∃ c, s.scan ts = some c ∧ Fits s.chunks ts c := by
  unfold scan
  cases hfind : s.chunks.find? fun c => c.spans ts with
  | some c =>
      have hspans := List.find?_some hfind
      exact ⟨c, rfl, .covers (List.mem_of_find?_eq_some hfind) hspans⟩
  | none =>
      obtain ⟨c, hc, hnearest⟩ := exists_nearest h.ascending hne ts
      exact ⟨c, hc, .nearest (by simpa using hfind) hnearest⟩

/-- **The lookup finds the chunk that is wanted.** -/
lemma exists_atIn_exact {s : Store} (h : Apart s.chunks) (hne : s.chunks ≠ [])
    (hshort : ∀ c ∈ s.chunks, IsShort c.ts) {ts : Int64} (hts : IsShort ts) :
    ∃ c, s.atIn .exact Chunk.exactWindow ts = .ok (some c) ∧ Fits s.chunks ts c := by
  have hsplits := h.ascending.splits ts
  rw [atIn_eq .exact (fun _ => rfl) hsplits]
  generalize s.chunks.takeWhile (fun c => c.ts ≤ ts) = older at hsplits ⊢
  generalize s.chunks.dropWhile (fun c => c.ts ≤ ts) = newer at hsplits ⊢
  obtain ⟨hcut, holder, hnewer⟩ := hsplits
  rw [← hcut] at h hne hshort ⊢
  obtain ⟨hapart, hapart', hbetween⟩ := h.append
  have hlt : ∀ a ∈ older, ∀ b ∈ newer, a.ts < b.ts := fun a ha b hb =>
    Int64.lt_of_le_of_lt (holder a ha) (hnewer b hb)
  have hfuture : ∀ a ∈ newer, a.spans ts = false := fun a ha => Chunk.spans_of_lt (hnewer a ha)
  cases hlast : older.getLast? with
  | none =>
      obtain rfl := List.getLast?_eq_none_iff.mp hlast
      have hfirst := List.head?_eq_some_head hne
      exact ⟨_, congrArg Except.ok hfirst, .nearest hfuture (isNearest_head? h hnewer hfirst)⟩
  | some before =>
      have hmem : before ∈ older := List.mem_of_getLast? hlast
      cases hspans : before.spans ts with
      | true =>
          refine ⟨before, ?_, .covers (List.mem_append_left _ hmem) hspans⟩
          cases newer.head? with
          | none => rfl
          | some after => exact if_pos hspans
      | false =>
          have hended := hapart.ends_le holder hlast hspans
          have hpast : ∀ a ∈ older, a.spans ts = false := fun a ha =>
            Chunk.spans_of_ends_le (hended a ha)
          have huncovered := List.forall_mem_append.mpr ⟨hpast, hfuture⟩
          have hnearest := isNearest_getLast? hapart hended hlast
          cases hfirst : newer.head? with
          | none =>
              obtain rfl := List.head?_eq_none_iff.mp hfirst
              rw [List.append_nil] at huncovered ⊢
              exact ⟨before, rfl, .nearest huncovered hnearest⟩
          | some after =>
              have hmem' : after ∈ newer := List.mem_of_head? hfirst
              refine ⟨_, ?_, .nearest huncovered
                (hnearest.append (isNearest_head? hapart' hnewer hfirst) hlt)⟩
              -- the two gaps are the distances of the two chunks
              have hgap := elapsed_of_isShort hts (hshort after (List.mem_append_right _ hmem'))
              have hgaps : Arithmetic.exact.lt (moment after.ts - moment ts)
                  (Arithmetic.exact.sub (Arithmetic.exact.ofTime ts)
                    (before.exactWindow.stop .exact)) =
                  decide (after.edgeDistance ts < before.edgeDistance ts) := by
                rw [Chunk.edgeDistance_of_le (hapart.positive before hmem) (hended before hmem),
                  Chunk.edgeDistance_of_lt (hapart'.positive after hmem')
                    (moment_lt_iff.mpr (hnewer after hmem'))]
                rfl
              have hnot : before.exactWindow.covers .exact ts = false := hspans
              simp only [hnot, hgap, hgaps, Fault.map_ok, Bool.false_eq_true, if_false,
                decide_eq_true_eq]
              by_cases hle : before.edgeDistance ts ≤ after.edgeDistance ts
              · rw [if_pos hle, if_neg (not_lt.mpr hle)]
              · rw [if_neg hle, if_pos (not_le.mp hle)]

/-- **Both find it.**  In exact arithmetic the lookup by time, which compares two chunks, is the
search through all chunks: it finds the chunk that covers the timestamp, or else the nearest one,
and of two that are as near the older one. -/
theorem atIn_exact_eq_scan {s : Store} (hne : s.chunks ≠ [])
    (hpositive : ∀ c ∈ s.chunks, 0 < c.exactWindow.duration)
    (hchain : s.chunks.IsChain fun a b => a.ends ≤ b.starts)
    (hshort : ∀ c ∈ s.chunks, IsShort c.ts) {ts : Int64} (hts : IsShort ts) :
    ∃ c, s.atIn .exact Chunk.exactWindow ts = .ok (some c) ∧ s.scan ts = some c ∧
      Fits s.chunks ts c ∧ ∀ d, Fits s.chunks ts d → d = c := by
  have hapart : Apart s.chunks := ⟨fun c hc => lt_add_of_pos_right _ (hpositive c hc), hchain⟩
  obtain ⟨c, hc, hfits⟩ := exists_atIn_exact hapart hne hshort hts
  obtain ⟨d, hd, hfits'⟩ := exists_scan hapart hne ts
  obtain rfl := hfits.eq hapart hfits'
  exact ⟨c, hc, hd, hfits, fun x hx => hx.eq hapart hfits⟩

/-- Two chunks of a second, with a second between them. -/
def spaced : Store :=
  { chunks := [⟨0, 1000, [0], none⟩, ⟨2000, 1000, [1], none⟩], capacity := 2 }

/-- In the middle between them the older one is found. -/
theorem atIn_spaced :
    (spaced.atIn .exact Chunk.exactWindow 1500).map (Option.map Chunk.ts) = .ok (some 0) ∧
      (spaced.scan 1500).map Chunk.ts = some 0 := by
  have hfound : (spaced.atIn .exact Chunk.exactWindow 1500).map (Option.map Chunk.ts) =
      .ok (some 0) := by
    decide +kernel
  obtain ⟨c, hc, hscan, -⟩ := atIn_exact_eq_scan (s := spaced) (List.cons_ne_nil _ _)
    (by decide +kernel) (by decide +kernel) (by decide +kernel)
    (show IsShort 1500 by decide +kernel)
  rw [hc] at hfound
  exact ⟨by rw [hc, hfound], by rw [hscan, ← Except.ok.inj hfound]⟩

end Store

end RewindRelay
