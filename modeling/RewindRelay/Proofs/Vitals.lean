import RewindRelay.Vitals
import RewindRelay.Proofs.Decimal.Relative
import RewindRelay.Proofs.Store.Nearest
/-!
# Chunks and seconds

A listener asks for a position in seconds, and is told its own in seconds, but the relay counts
chunks.  Both conversions round: once in the product, once in the quotient.  What comes back is off
by a relative error of hardly more than two parts in `2 ^ 53`, and of a count up to `2 ^ 50` that is
hardly more than a quarter of a chunk.  The nearest count is the one that was asked for.

* `Arithmetic.erring` — rational numbers, with products and quotients that err.
* `Vitals.chunksWithin` — the chunks in a span of seconds, in any arithmetic.
* `nearestCount_of_errs` — **a quarter of a chunk is not enough** to come to another count.
* `HasValue.nearestCount_eq` — the count nearest to a double is the one nearest to its value.
* `Vitals.chunksIn_secondsOf` — **seconds lead back to the count**, however the errors fall.
-/

namespace RewindRelay

open Decimal

/-! ## Erring arithmetic -/

/-- Rational numbers, with products and quotients that are off by a relative error. -/
def Arithmetic.erring (δ ε : ℚ → ℚ → ℚ) : Arithmetic ℚ :=
  { Arithmetic.exact with
    mul := fun x y => x * y * (1 + δ x y)
    div := fun x y => x / y * (1 + ε x y) }

/-- **A quarter of a chunk is not enough.**  What is off by two relative errors is still nearest to
the same count. -/
lemma nearestCount_of_errs {n : ℕ} (hn : n ≤ 2 ^ 50) {d s q : ℚ} (hd : 0 < d)
    (hs : Errs s (n * d)) (hq : Errs q (s / d)) : Arithmetic.exact.nearestCount q = n := by
  obtain ⟨δ, hδ, rfl⟩ := hs
  obtain ⟨ε, hε, rfl⟩ := hq
  have hcount : (n : ℚ) ≤ 2 ^ 50 := by exact_mod_cast hn
  have hnonneg : (0 : ℚ) ≤ n := Nat.cast_nonneg n
  have hroundoff := roundoff_pos.le
  have htotal : |δ + ε + δ * ε| ≤ 2 * roundoff + roundoff * roundoff := by
    calc |δ + ε + δ * ε| ≤ |δ| + |ε| + |δ * ε| := abs_add_three _ _ _
      _ = |δ| + |ε| + |δ| * |ε| := by rw [abs_mul]
      _ ≤ roundoff + roundoff + roundoff * roundoff := by gcongr
      _ = 2 * roundoff + roundoff * roundoff := by ring
  have hless : |n * (δ + ε + δ * ε)| < 1 / 2 := by
    calc |n * (δ + ε + δ * ε)| = n * |δ + ε + δ * ε| := by rw [abs_mul, abs_of_nonneg hnonneg]
      _ ≤ 2 ^ 50 * (2 * roundoff + roundoff * roundoff) :=
        mul_le_mul hcount htotal (abs_nonneg _) (by norm_num)
      _ < 1 / 2 := by norm_num [roundoff]
  have hvalue : n * d * (1 + δ) / d * (1 + ε) = n + n * (δ + ε + δ * ε) := by
    field_simp
    ring
  obtain ⟨hlow, hhigh⟩ := abs_lt.mp hless
  have hfloor : ⌊n * d * (1 + δ) / d * (1 + ε) + 1 / 2⌋ = (n : ℤ) := by
    rw [Int.floor_eq_iff, hvalue, Int.cast_natCast]
    constructor <;> linarith
  have hmax : n ≤ maxCount := hn.trans (by decide)
  change min maxCount ⌊n * d * (1 + δ) / d * (1 + ε) + 1 / 2⌋.toNat = n
  rw [hfloor, Int.toNat_natCast, Nat.min_eq_right hmax]

/-- The quotient is the count with the error of the product, before it is rounded itself. -/
lemma quotient_bounds {n : ℕ} (hpos : 0 < n) (hn : n ≤ 2 ^ 50) {d s : ℚ} (hd : 0 < d)
    (hs : Errs s (n * d)) : 1 / 2 ≤ s / d ∧ s / d ≤ 2 ^ 50 * 2 := by
  have hone : (1 : ℚ) ≤ n := by exact_mod_cast hpos
  have hcount : (n : ℚ) ≤ 2 ^ 50 := by exact_mod_cast hn
  obtain ⟨hlow, hhigh⟩ := hs.bounds (mul_nonneg (Nat.cast_nonneg n) hd.le)
  have hleast : 1 * d ≤ n * d := mul_le_mul_of_nonneg_right hone hd.le
  have hmost : n * d ≤ 2 ^ 50 * d := mul_le_mul_of_nonneg_right hcount hd.le
  rw [le_div_iff₀ hd, div_le_iff₀ hd]
  constructor <;> linarith

/-! ## Doubles -/

namespace Decimal

variable {x : Float} {a : ℚ}

lemma HasValue.ofFloat_eq (h : HasValue x a) :
    ∃ m e, Binary.ofFloat x = .finite false m e ∧ a = m * 2 ^ e := by
  obtain ⟨negative, m, e, hof, hcases⟩ := ofFloat_of_isFinite h.isFinite
  obtain ⟨-, hm⟩ | ⟨hm, -, hu⟩ := hcases
  · obtain ⟨_, _, _, hu, -⟩ := h
    rw [hm] at hu
    cases hu
  · obtain ⟨m', e', hm', hu', -, rfl⟩ := h
    rw [hu, Float.Model.UnpackedFloat.finite.injEq] at hu'
    obtain ⟨hsign, rfl, rfl⟩ := hu'
    cases negative with
    | false => exact ⟨m, e, hof, rfl⟩
    | true => cases hsign

/-- A finite double that is greater than zero has the value of its parts. -/
lemma hasValue_of_pos (hfinite : x.isFinite = true) (hpos : 0 < x) :
    HasValue x (Binary.ofFloat x).value := by
  obtain ⟨negative, m, e, hof, hcases⟩ := ofFloat_of_isFinite hfinite
  obtain ⟨rfl, hm⟩ := signOf_of_pos hpos
    (hcases.imp_right fun ⟨hm, _, hu⟩ => ⟨e, hm, hu⟩)
  obtain ⟨hzero, -⟩ | ⟨hm, hc, hu⟩ := hcases
  · exact absurd hzero (Nat.ne_of_gt hm)
  · refine ⟨m, e, hm, hu, hc, ?_⟩
    rw [hof]
    exact congrArg (· * (2 : ℚ) ^ e) (one_mul _)

lemma roundHalfUp_eq (m : ℕ) (e : ℤ) :
    (roundHalfUp m e : ℤ) = ⌊(m : ℚ) * 2 ^ e + 1 / 2⌋ := by
  rw [roundHalfUp]
  split
  · next hneg =>
      have hunit : (2 : ℚ) ^ e = 1 / (2 ^ (-e).toNat : ℕ) := by
        rw [Nat.cast_pow, Nat.cast_ofNat, ← zpow_natCast, one_div, ← zpow_neg]
        congr 1
        omega
      have hpos : (0 : ℚ) < (2 ^ (-e).toNat : ℕ) := by positivity
      have hquotient : (m : ℚ) * 2 ^ e + 1 / 2 =
          ((2 * m + 2 ^ (-e).toNat : ℕ) : ℚ) / (2 * 2 ^ (-e).toNat : ℕ) := by
        rw [hunit, Nat.cast_add, Nat.cast_mul, Nat.cast_mul]
        field_simp
        push_cast
        ring
      rw [hquotient, Rat.floor_natCast_div_natCast]
      rfl
  · next hnonneg =>
      have hpower : (2 : ℚ) ^ e = (2 ^ e.toNat : ℕ) := by
        rw [Nat.cast_pow, Nat.cast_ofNat, ← zpow_natCast]
        congr 1
        omega
      change ((m * 2 ^ e.toNat : ℕ) : ℤ) = _
      rw [hpower, ← Nat.cast_mul, eq_comm, Int.floor_eq_iff, Int.cast_natCast]
      constructor <;> linarith

/-- **The count nearest to a double is the one nearest to its value.** -/
lemma HasValue.nearestCount_eq (h : HasValue x a) :
    nearestCount x = Arithmetic.exact.nearestCount a := by
  obtain ⟨m, e, hof, rfl⟩ := h.ofFloat_eq
  have hfloor : roundHalfUp m e = ⌊(m : ℚ) * 2 ^ e + 1 / 2⌋.toNat := by
    rw [← roundHalfUp_eq, Int.toNat_natCast]
  rw [nearestCount, hof]
  simp only [Bool.false_eq_true, if_false]
  rw [hfloor]
  rfl

end Decimal

/-! ## Conversions -/

namespace Vitals

/-- The chunk duration as a rational number. -/
def exactDuration (v : Vitals) : ℚ := (Binary.ofFloat v.chunkDuration).value

/-- The chunks in a span of seconds, in any arithmetic.  Spans that are not positive hold none. -/
def chunksWithin {α : Type} (A : Arithmetic α) (chunkDuration seconds : α) : ℕ :=
  if A.lt (A.ofCount 0) seconds then chunksAt A chunkDuration seconds else 0

/-- The chunks in a span of seconds are those in doubles. -/
lemma chunksIn_eq {v : Vitals} (hv : v.isUsable = true) (s : Float) :
    v.chunksIn s = if s.isFinite then chunksWithin .double v.chunkDuration s else 0 := by
  have hzero : Arithmetic.double.lt (Arithmetic.double.ofCount 0) s = decide (0 < s) := rfl
  rw [chunksIn, chunksWithin, hv, hzero]
  cases s.isFinite <;> rfl

lemma hasValue_chunkDuration {v : Vitals} (hv : v.isUsable = true) :
    HasValue v.chunkDuration v.exactDuration := by
  rw [isUsable, Bool.and_eq_true, decide_eq_true_eq] at hv
  exact hasValue_of_pos hv.1 hv.2

/-- In erring arithmetic, chunks are counted back from their seconds. -/
lemma chunksWithin_secondsAt {d : ℚ} (hd : 0 < d) {n : ℕ} (hn : n ≤ 2 ^ 50) {δ ε : ℚ → ℚ → ℚ}
    (hδ : ∀ x y, |δ x y| ≤ roundoff) (hε : ∀ x y, |ε x y| ≤ roundoff) :
    chunksWithin (.erring δ ε) d (secondsAt (.erring δ ε) d n) = n := by
  have hs : Errs (secondsAt (.erring δ ε) d n) (n * d) := ⟨δ n d, hδ _ _, rfl⟩
  generalize secondsAt (.erring δ ε) d n = s at hs
  have hlt : (Arithmetic.erring δ ε).lt ((Arithmetic.erring δ ε).ofCount 0) s = decide (0 < s) :=
    congrArg (fun zero : ℚ => decide (zero < s)) Nat.cast_zero
  rw [chunksWithin, hlt]
  rcases Nat.eq_zero_or_pos n with rfl | hpos
  · rw [Nat.cast_zero, zero_mul] at hs
    have hnone : ¬ 0 < s := not_lt.mpr ((hs.bounds le_rfl).2.trans (zero_mul _).le)
    rw [decide_eq_false hnone]
    rfl
  · have hproduct : 0 < n * d := mul_pos (by exact_mod_cast hpos) hd
    have hspos : 0 < s := (half_pos hproduct).trans_le (hs.bounds hproduct.le).1
    rw [decide_eq_true hspos, if_pos rfl]
    exact nearestCount_of_errs hn hd hs ⟨ε s d, hε _ _, rfl⟩

/-- No seconds for no chunks, and no chunks for no seconds. -/
lemma chunksIn_secondsOf_zero {v : Vitals} (hv : v.isUsable = true) :
    v.chunksIn (v.secondsOf 0) = 0 := by
  obtain ⟨m, e, hm, hu, -⟩ := hasValue_chunkDuration hv
  have hproduct : (v.secondsOf 0).toModel = Float.Model.pack (.zero .positive) := by
    have hmul : (v.secondsOf 0).toModel = Float.Model.pack (Float.Model.UnpackedFloat.mul
        Float.Model.Format.binary64 (ofCount 0).toModel.unpack v.chunkDuration.toModel.unpack) :=
      rfl
    have hzero : (ofCount 0).toModel.unpack = .zero .positive := rfl
    rw [hmul, hzero, hu]
    rfl
  have hnone : ¬ 0 < v.secondsOf 0 := by
    rw [Decimal.zero_lt_iff, hproduct]
    exact Bool.false_ne_true
  rw [chunksIn, decide_eq_false hnone, Bool.and_false]
  rfl

/-- The seconds are off by one relative error, and the chunks in them by another. -/
lemma chunksIn_secondsOf_pos {v : Vitals} (hv : v.isUsable = true) {n : ℕ} (hpos : 0 < n)
    (hn : n ≤ 2 ^ 50) (hfinite : (v.secondsOf n).isFinite = true) :
    v.chunksIn (v.secondsOf n) = n := by
  have hd := hasValue_chunkDuration hv
  have hdpos := hd.value_pos
  obtain ⟨s, hs, herr⟩ := hd.count_mul hpos (Nat.lt_of_le_of_lt hn (by decide)) hfinite
  obtain ⟨hlow, hhigh⟩ := quotient_bounds hpos hn hdpos herr
  have hnormal : (2 : ℚ) ^ (-1022 : ℤ) ≤ 1 / 2 := by
    rw [one_div, ← zpow_neg_one]
    exact two_zpow_le (by decide)
  have hbelow : (2 : ℚ) ^ 50 * 2 < maxDouble := by
    rw [← pow_succ]
    exact two_pow_lt_maxDouble (by decide)
  obtain ⟨q, hq, herr'⟩ := hs.div_errs hd (hnormal.trans hlow) (hhigh.trans_lt hbelow)
  have hpositive : Arithmetic.double.lt (Arithmetic.double.ofCount 0) (v.secondsOf n) = true :=
    decide_eq_true hs.pos
  rw [chunksIn_eq hv, if_pos hfinite, chunksWithin, if_pos hpositive]
  exact hq.nearestCount_eq.trans (nearestCount_of_errs hn hdpos herr herr')

/-- **Seconds lead back to the count.**  The product may be off by any relative error, and so may
the quotient: up to `2 ^ 50` chunks, the seconds that these play for hold as many chunks.  In
doubles it is the same, unless the seconds are too many for a double, and then they hold none. -/
theorem chunksIn_secondsOf {v : Vitals} (hv : v.isUsable = true) {n : ℕ} (hn : n ≤ 2 ^ 50) :
    (∀ δ ε : ℚ → ℚ → ℚ, (∀ x y, |δ x y| ≤ roundoff) → (∀ x y, |ε x y| ≤ roundoff) →
      chunksWithin (.erring δ ε) v.exactDuration
        (secondsAt (.erring δ ε) v.exactDuration n) = n) ∧
    v.chunksIn (v.secondsOf n) = if (v.secondsOf n).isFinite then n else 0 := by
  have hdpos := (hasValue_chunkDuration hv).value_pos
  constructor
  · intro δ ε hδ hε
    exact chunksWithin_secondsAt hdpos hn hδ hε
  · by_cases hfinite : (v.secondsOf n).isFinite = true
    · rw [if_pos hfinite]
      rcases Nat.eq_zero_or_pos n with rfl | hpos
      · exact chunksIn_secondsOf_zero hv
      · exact chunksIn_secondsOf_pos hv hpos hn hfinite
    · rw [chunksIn_eq hv, if_neg hfinite, if_neg hfinite]

/-- Chunks of one frame, of a length that is no short binary fraction. -/
def framewise : Vitals := { streamKey := "frames", chunkDuration := 0.026122448979591837 }

/-- Nearly a million years of them, with both errors as large as they can be, and in doubles. -/
theorem chunksIn_framewise :
    chunksWithin (.erring (fun _ _ => roundoff) fun _ _ => roundoff) framewise.exactDuration
        (secondsAt (.erring (fun _ _ => roundoff) fun _ _ => roundoff) framewise.exactDuration
          (2 ^ 50)) = 2 ^ 50 ∧
      framewise.chunksIn (framewise.secondsOf (2 ^ 50)) = 2 ^ 50 := by
  have husable : framewise.isUsable = true := by decide +kernel
  have hfinite : (framewise.secondsOf (2 ^ 50)).isFinite = true := by decide +kernel
  have hlargest : ∀ _ _ : ℚ, |roundoff| ≤ roundoff := fun _ _ => (abs_of_pos roundoff_pos).le
  obtain ⟨herring, hdouble⟩ := chunksIn_secondsOf husable (n := 2 ^ 50) le_rfl
  refine ⟨herring _ _ hlargest hlargest, ?_⟩
  rw [hdouble, if_pos hfinite]

end Vitals

end RewindRelay
