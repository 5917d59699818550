import RewindRelay.Proofs.Decimal.Numeral
/-!
# How doubles are rounded

The exact result of an operation lies between two neighbouring doubles, and it is rounded to the
nearer of them.  Of what is cut off, two bits are kept: they say on which side of the middle the
result lies.  What is rounded is then at most half a unit in the last place away.

* `Canonical` — the significands and exponents of positive doubles.
* `lastPlace` — the exponent of the last place that is kept.
* `Marks` — what the two bits say.
* `roundedSignificand`, `roundWithAccuracy_eq` — the significand is cut off, and perhaps one is
  added.
* `Rounded` — half a unit in the last place.
* `IsKept`, `RoundsTo` — what is kept of a significand, and what comes of it when it is too long.
* `exists_canonical` — **a result is rounded to the nearest double**, unless it is too large.
-/

namespace RewindRelay.Decimal

open Float.Model Float.Model.UnpackedFloat

/-! ## Significands and exponents -/

/-- A significand and an exponent of a positive double. -/
structure Canonical (m : ℕ) (e : ℤ) : Prop where
  pos : 0 < m
  lt : m < 2 ^ 53
  least : -1074 ≤ e
  greatest : e ≤ 971
  normal : 2 ^ 52 ≤ m ∨ e = -1074

/-- The exponent of the last place that is kept of `m · 2 ^ e`. -/
def lastPlace (m : ℕ) (e : ℤ) : ℤ := max (m.log2 + e - 52) (-1074)

lemma targetExponent_eq (m : ℕ) (e : ℤ) :
    Format.binary64.targetExponent (totalExponent m e) = lastPlace m e := by
  simp only [Format.targetExponent, totalExponent, Format.mantissaBits, Format.minExponent,
    lastPlace]
  omega

/-- The largest double. -/
def maxDouble : ℚ := (2 ^ 53 - 1) * 2 ^ (971 : ℤ)

/-- The least positive double. -/
def minDouble : ℚ := 2 ^ (-1074 : ℤ)

/-! ## Cutting off -/

lemma mantissa_shiftRight (em : ExtendedMantissa) (k : ℕ) :
    (em >>> k).mantissa = em.mantissa / 2 ^ k := by
  induction k with
  | zero => exact (Nat.div_one _).symm
  | succ k ih =>
      have hnext : (em >>> (k + 1)).mantissa = (em >>> k).mantissa / 2 := rfl
      rw [hnext, ih, Nat.div_div_eq_div_mul, Nat.pow_succ]

lemma roundedMantissa_cases (em : ExtendedMantissa) :
    em.roundedMantissa = em.mantissa ∨ em.roundedMantissa = em.mantissa + 1 := by
  obtain ⟨m, round, sticky⟩ := em
  cases round <;> cases sticky
  · exact Or.inl rfl
  · exact Or.inl rfl
  · have htie : ExtendedMantissa.roundedMantissa ⟨m, true, false⟩ = m + m % 2 := rfl
    rcases Nat.mod_two_eq_zero_or_one m with h | h
    · exact Or.inl (htie.trans (congrArg (m + ·) h))
    · exact Or.inr (htie.trans (congrArg (m + ·) h))
  · exact Or.inr rfl

lemma mantissa_ofMantissaAndAccuracy (m : ℕ) (acc : Accuracy) :
    (ExtendedMantissa.ofMantissaAndAccuracy m acc).mantissa = m := by
  rcases acc with _ | o
  · rfl
  · cases o <;> rfl

/-! ## What the two bits say -/

/-- A number that lies between a significand and the next one, and what the two bits behind the
significand say of it. -/
inductive Marks : ExtendedMantissa → ℚ → Prop
  | exact {m : ℕ} {y : ℚ} (h : y = m) : Marks ⟨m, false, false⟩ y
  | less {m : ℕ} {y : ℚ} (hlow : m < y) (hhigh : y < m + 1 / 2) : Marks ⟨m, false, true⟩ y
  | half {m : ℕ} {y : ℚ} (h : y = m + 1 / 2) : Marks ⟨m, true, false⟩ y
  | more {m : ℕ} {y : ℚ} (hlow : m + 1 / 2 < y) (hhigh : y < m + 1) : Marks ⟨m, true, true⟩ y

namespace Marks

variable {em : ExtendedMantissa} {y : ℚ}

lemma le (h : Marks em y) : em.mantissa ≤ y := by
  cases h <;> linarith

lemma lt (h : Marks em y) : y < em.mantissa + 1 := by
  cases h <;> linarith

/-- The last place is dropped: if it is set, the number is in the upper half. -/
lemma shiftRightOne (h : Marks em y) : Marks em.shiftRightOne (y / 2) := by
  obtain ⟨m, round, sticky⟩ := em
  obtain ⟨k, rfl | rfl⟩ := Nat.even_or_odd' m
  · have heven : (⟨2 * k, round, sticky⟩ : ExtendedMantissa).shiftRightOne =
        ⟨k, false, round || sticky⟩ := by
      simp [ExtendedMantissa.shiftRightOne]
    rw [heven]
    cases h with
    | exact h => exact .exact (by push_cast at h; linarith)
    | less hlow hhigh => push_cast at hlow hhigh; exact .less (by linarith) (by linarith)
    | half h => push_cast at h; exact .less (by linarith) (by linarith)
    | more hlow hhigh => push_cast at hlow hhigh; exact .less (by linarith) (by linarith)
  · have hodd : (⟨2 * k + 1, round, sticky⟩ : ExtendedMantissa).shiftRightOne =
        ⟨k, true, round || sticky⟩ := by
      simp [ExtendedMantissa.shiftRightOne, Nat.add_mod]
      omega
    rw [hodd]
    cases h with
    | exact h => exact .half (by push_cast at h; linarith)
    | less hlow hhigh => push_cast at hlow hhigh; exact .more (by linarith) (by linarith)
    | half h => push_cast at h; exact .more (by linarith) (by linarith)
    | more hlow hhigh => push_cast at hlow hhigh; exact .more (by linarith) (by linarith)

lemma shiftRight (h : Marks em y) (k : ℕ) : Marks (em >>> k) (y / 2 ^ k) := by
  induction k with
  | zero =>
      rw [pow_zero, div_one]
      exact h
  | succ k ih =>
      have hnext : em >>> (k + 1) = (em >>> k).shiftRightOne := rfl
      rw [hnext, pow_succ, ← div_div]
      exact ih.shiftRightOne

/-- The rounded significand is the nearest one. -/
lemma abs_sub_le (h : Marks em y) : |(em.roundedMantissa : ℚ) - y| ≤ 1 / 2 := by
  rw [abs_le]
  cases h with
  | @exact m y h =>
      have hround : ExtendedMantissa.roundedMantissa ⟨m, false, false⟩ = m := rfl
      rw [hround]
      constructor <;> linarith
  | @less m y hlow hhigh =>
      have hround : ExtendedMantissa.roundedMantissa ⟨m, false, true⟩ = m := rfl
      rw [hround]
      constructor <;> linarith
  | @half m y h =>
      have hround : ExtendedMantissa.roundedMantissa ⟨m, true, false⟩ = m + m % 2 := rfl
      have hparity : ((m % 2 : ℕ) : ℚ) ≤ 1 := by
        exact_mod_cast Nat.le_of_lt_succ (Nat.mod_lt m (by decide))
      have hnonneg : (0 : ℚ) ≤ (m % 2 : ℕ) := Nat.cast_nonneg _
      rw [hround, Nat.cast_add]
      constructor <;> linarith
  | @more m y hlow hhigh =>
      have hround : ExtendedMantissa.roundedMantissa ⟨m, true, true⟩ = m + 1 := rfl
      rw [hround]
      push_cast
      constructor <;> linarith

end Marks

/-- Nothing is cut off yet. -/
lemma marks_exact (m : ℕ) : Marks (.ofMantissaAndAccuracy m .exact) m := .exact rfl

/-- The remainder of a division says what is cut off. -/
lemma marks_fraction (q : ℕ) {r n : ℕ} (hr : r < n) :
    Marks (.ofMantissaAndAccuracy q (accuracyOfFraction r n)) (q + r / n) := by
  have hn : (0 : ℚ) < n := by exact_mod_cast Nat.zero_lt_of_lt hr
  have hrn : (r : ℚ) / n < 1 := (div_lt_one hn).mpr (by exact_mod_cast hr)
  by_cases hzero : r = 0
  · subst hzero
    exact .exact (by simp)
  · have hpos : (0 : ℚ) < r / n := div_pos (by exact_mod_cast Nat.pos_of_ne_zero hzero) hn
    rw [accuracyOfFraction, if_neg hzero]
    rcases lt_trichotomy (2 * r) n with hlt | heq | hgt
    · have hbelow : (r : ℚ) / n < 1 / 2 := by
        have hcast : (2 : ℚ) * r < n := by exact_mod_cast hlt
        rw [div_lt_iff₀ hn]
        linarith
      rw [compare_lt_iff_lt.mpr hlt]
      exact .less (by linarith) (by linarith)
    · have hmiddle : (r : ℚ) / n = 1 / 2 := by
        have hcast : (2 : ℚ) * r = n := by exact_mod_cast heq
        rw [div_eq_iff hn.ne']
        linarith
      rw [compare_eq_iff_eq.mpr heq]
      exact .half (by rw [hmiddle])
    · have habove : 1 / 2 < (r : ℚ) / n := by
        have hcast : (n : ℚ) < 2 * r := by exact_mod_cast hgt
        rw [lt_div_iff₀ hn]
        linarith
      rw [compare_gt_iff_gt.mpr hgt]
      exact .more (by linarith) (by linarith)

/-! ## What is kept -/

/-- How many places are dropped of a significand that has enough of them. -/
lemma add_shift_eq {m : ℕ} {e : ℤ} (he : e ≤ -1074 ∨ 2 ^ 52 ≤ m) :
    e + ((lastPlace m e - e).toNat : ℤ) = lastPlace m e := by
  have hle : e ≤ lastPlace m e := by
    rcases he with he | hm
    · exact he.trans (le_max_right _ _)
    · have hlog : 52 ≤ m.log2 := (Nat.le_log2 (by omega)).mpr hm
      exact le_trans (by omega) (le_max_left _ _)
  omega

/-- What is kept has at most 53 places. -/
lemma div_lt_of_lastPlace {m : ℕ} {e : ℤ} (he : e ≤ -1074 ∨ 2 ^ 52 ≤ m) :
    m / 2 ^ (lastPlace m e - e).toNat < 2 ^ 53 := by
  have hshift := add_shift_eq he
  have hplace : (m.log2 : ℤ) + e - 52 ≤ lastPlace m e := le_max_left _ _
  have hlog : m.log2 + 1 ≤ 53 + (lastPlace m e - e).toNat := by omega
  rw [Nat.div_lt_iff_lt_mul (Nat.two_pow_pos _), ← Nat.pow_add]
  exact Nat.lt_of_lt_of_le Nat.lt_log2_self (Nat.pow_le_pow_right (by decide) hlog)

/-- What is kept has 53 places, unless it ends at the last place of all. -/
lemma le_div_of_lastPlace {m : ℕ} {e : ℤ} (hm : 0 < m) (he : e ≤ -1074 ∨ 2 ^ 52 ≤ m) :
    2 ^ 52 ≤ m / 2 ^ (lastPlace m e - e).toNat ∨ lastPlace m e = -1074 := by
  rcases max_choice ((m.log2 : ℤ) + e - 52) (-1074) with h | h
  · left
    have hplace : lastPlace m e = m.log2 + e - 52 := h
    have hshift := add_shift_eq he
    have hlog : 52 + (lastPlace m e - e).toNat = m.log2 := by omega
    rw [Nat.le_div_iff_mul_le (Nat.two_pow_pos _), ← Nat.pow_add, hlog]
    exact Nat.log2_self_le (Nat.ne_of_gt hm)
  · exact Or.inr h

/-! ## Rounding -/

lemma shiftToTargetExponent_eq (m : ℕ) (e : ℤ) (acc : Accuracy) :
    shiftToTargetExponent Format.binary64 m e acc =
      (ExtendedMantissa.ofMantissaAndAccuracy m acc >>> (lastPlace m e - e).toNat,
        e + (lastPlace m e - e).toNat) := by
  rw [shiftToTargetExponent, targetExponent_eq]
  rfl

/-- Nothing is cut off a significand that is short enough. -/
lemma shiftToTargetExponent_short {m : ℕ} {e : ℤ} (hm : m < 2 ^ 53) (he : -1074 ≤ e) :
    shiftToTargetExponent Format.binary64 m e .exact = (⟨m, false, false⟩, e) := by
  have hlog : m.log2 ≤ 52 := by
    rcases Nat.eq_zero_or_pos m with rfl | hpos
    · decide
    · have hlt := (Nat.log2_lt (Nat.ne_of_gt hpos)).mpr hm
      omega
  have hle : lastPlace m e ≤ e := max_le (by omega) he
  have hzero : (lastPlace m e - e).toNat = 0 := by omega
  rw [shiftToTargetExponent_eq, hzero, Int.natCast_zero, add_zero]
  rfl

/-- One place is cut off a significand that has become too long. -/
lemma shiftToTargetExponent_long {e : ℤ} (he : -1074 ≤ e) :
    shiftToTargetExponent Format.binary64 (2 ^ 53) e .exact = (⟨2 ^ 52, false, false⟩, e + 1) := by
  have hplace : lastPlace (2 ^ 53) e = e + 1 := by
    rw [lastPlace, Nat.log2_two_pow]
    exact (max_eq_left (by omega)).trans (by omega)
  have hone : (lastPlace (2 ^ 53) e - e).toNat = 1 := by omega
  rw [shiftToTargetExponent_eq, hone]
  rfl

/-- The significand that is kept, rounded. -/
def roundedSignificand (m : ℕ) (e : ℤ) (acc : Accuracy) : ℕ :=
  (ExtendedMantissa.ofMantissaAndAccuracy m acc >>> (lastPlace m e - e).toNat).roundedMantissa

lemma roundedSignificand_cases (m : ℕ) (e : ℤ) (acc : Accuracy) :
    roundedSignificand m e acc = m / 2 ^ (lastPlace m e - e).toNat ∨
      roundedSignificand m e acc = m / 2 ^ (lastPlace m e - e).toNat + 1 := by
  have hcases := roundedMantissa_cases
    (ExtendedMantissa.ofMantissaAndAccuracy m acc >>> (lastPlace m e - e).toNat)
  rwa [mantissa_shiftRight, mantissa_ofMantissaAndAccuracy] at hcases

/-- **The significand is cut off, and perhaps one is added.**  Where that makes it too long, its
last place is zero and dropped. -/
theorem roundWithAccuracy_eq (s : Sign) {m : ℕ} {e : ℤ} (acc : Accuracy)
    (he : e ≤ -1074 ∨ 2 ^ 52 ≤ m) :
    roundWithAccuracy Format.binary64 s m e acc =
      if h : roundedSignificand m e acc = 0 then .zero s
      else if roundedSignificand m e acc < 2 ^ 53 then
        .finite s (roundedSignificand m e acc) (lastPlace m e) (Nat.pos_of_ne_zero h)
      else .finite s (2 ^ 52) (lastPlace m e + 1) (by decide) := by
  have hfirst := shiftToTargetExponent_eq m e acc
  rw [add_shift_eq he] at hfirst
  have hcases := roundedSignificand_cases m e acc
  have hlt := div_lt_of_lastPlace he
  have hplace : -1074 ≤ lastPlace m e := le_max_right _ _
  rw [roundWithAccuracy, hfirst]
  dsimp only
  rw [← roundedSignificand]
  by_cases hshort : roundedSignificand m e acc < 2 ^ 53
  · rw [shiftToTargetExponent_short hshort hplace]
    simp only [hshort, if_true]
  · have hlong : roundedSignificand m e acc = 2 ^ 53 := by omega
    rw [hlong, shiftToTargetExponent_long hplace]
    rfl

/-! ## Bounds -/

lemma two_zpow_pos (e : ℤ) : (0 : ℚ) < 2 ^ e := zpow_pos (by norm_num) e

lemma two_zpow_le {e f : ℤ} (h : e ≤ f) : (2 : ℚ) ^ e ≤ 2 ^ f :=
  zpow_le_zpow_right₀ (by norm_num) h

/-- Half a unit in the last place.  The unit is small against the exact number, unless it is the
least double. -/
def Rounded (a exact : ℚ) : Prop :=
  ∃ (r : ℕ) (t : ℤ), a = r * 2 ^ t ∧ |a - exact| ≤ 2 ^ t / 2 ∧
    (2 ^ t ≤ exact / 2 ^ 52 ∨ t = -1074)

/-- The last place that is kept is small against the number. -/
lemma two_zpow_lastPlace_le {m : ℕ} (hm : 0 < m) {e : ℤ} {x : ℚ} (hx : (m : ℚ) * 2 ^ e ≤ x) :
    (2 : ℚ) ^ lastPlace m e ≤ x / 2 ^ 52 ∨ lastPlace m e = -1074 := by
  rcases max_choice ((m.log2 : ℤ) + e - 52) (-1074) with h | h
  · left
    have hlog : ((2 : ℚ) ^ m.log2) ≤ m := by exact_mod_cast Nat.log2_self_le (Nat.ne_of_gt hm)
    rw [lastPlace, h, le_div_iff₀ (by norm_num)]
    calc (2 : ℚ) ^ ((m.log2 : ℤ) + e - 52) * 2 ^ 52
        = 2 ^ m.log2 * 2 ^ e := by
          rw [zpow_sub₀ (by norm_num), zpow_add₀ (by norm_num), zpow_natCast]
          norm_num
      _ ≤ m * 2 ^ e := mul_le_mul_of_nonneg_right hlog (two_zpow_pos e).le
      _ ≤ x := hx
  · exact Or.inr h

/-- What is kept is half a unit away at most. -/
lemma abs_roundedSignificand_sub_le {m : ℕ} {e : ℤ} {acc : Accuracy}
    (he : e ≤ -1074 ∨ 2 ^ 52 ≤ m) {x : ℚ} (h : Marks (.ofMantissaAndAccuracy m acc) (x / 2 ^ e)) :
    |(roundedSignificand m e acc : ℚ) * 2 ^ lastPlace m e - x| ≤ 2 ^ lastPlace m e / 2 := by
  set k := (lastPlace m e - e).toNat with hk
  have hunit := two_zpow_pos (lastPlace m e)
  have hplace : (2 : ℚ) ^ lastPlace m e = 2 ^ e * 2 ^ k := by
    rw [← add_shift_eq he, ← hk, zpow_add₀ (by norm_num), zpow_natCast]
  have hnear : |(roundedSignificand m e acc : ℚ) - x / 2 ^ lastPlace m e| ≤ 1 / 2 := by
    rw [hplace, ← div_div]
    exact (h.shiftRight k).abs_sub_le
  calc |(roundedSignificand m e acc : ℚ) * 2 ^ lastPlace m e - x|
      = |(roundedSignificand m e acc - x / 2 ^ lastPlace m e) * 2 ^ lastPlace m e| := by
        rw [sub_mul, div_mul_cancel₀ _ hunit.ne']
    _ = |(roundedSignificand m e acc : ℚ) - x / 2 ^ lastPlace m e| * 2 ^ lastPlace m e := by
        rw [abs_mul, abs_of_pos hunit]
    _ ≤ 1 / 2 * 2 ^ lastPlace m e := mul_le_mul_of_nonneg_right hnear hunit.le
    _ = 2 ^ lastPlace m e / 2 := one_div_mul_eq_div _ _

/-- A rounded significand, and the place where it ends. -/
structure IsKept (r : ℕ) (t : ℤ) (x : ℚ) : Prop where
  pos : 0 < r
  le : r ≤ 2 ^ 53
  least : -1074 ≤ t
  normal : 2 ^ 52 ≤ r ∨ t = -1074
  near : |(r : ℚ) * 2 ^ t - x| ≤ 2 ^ t / 2
  place : (2 : ℚ) ^ t ≤ x / 2 ^ 52 ∨ t = -1074

/-- A number that is not below all doubles keeps something of its significand. -/
lemma isKept_roundedSignificand {m : ℕ} (hm : 0 < m) {e : ℤ} {acc : Accuracy}
    (he : e ≤ -1074 ∨ 2 ^ 52 ≤ m) {x : ℚ} (h : Marks (.ofMantissaAndAccuracy m acc) (x / 2 ^ e))
    (hmin : minDouble ≤ x) : IsKept (roundedSignificand m e acc) (lastPlace m e) x := by
  have hnear := abs_roundedSignificand_sub_le he h
  have hcases := roundedSignificand_cases m e acc
  have hlt := div_lt_of_lastPlace he
  have hnormal : 2 ^ 52 ≤ roundedSignificand m e acc ∨ lastPlace m e = -1074 :=
    (le_div_of_lastPlace hm he).imp_left (by omega)
  have hlow : (m : ℚ) * 2 ^ e ≤ x := by
    rw [← le_div_iff₀ (two_zpow_pos e), ← mantissa_ofMantissaAndAccuracy m acc]
    exact h.le
  refine ⟨Nat.pos_of_ne_zero fun hzero => ?_, by omega, le_max_right _ _, hnormal, hnear,
    two_zpow_lastPlace_le hm hlow⟩
  have hlast : lastPlace m e = -1074 := hnormal.resolve_left (by omega)
  rw [hzero, hlast, Nat.cast_zero, zero_mul, zero_sub, abs_neg] at hnear
  have hless : x ≤ minDouble / 2 := (le_abs_self x).trans hnear
  have hpositive : 0 < minDouble := two_zpow_pos _
  linarith

/-- The significand and the exponent that a number is rounded to. -/
structure RoundsTo (r : ℕ) (e : ℤ) (x : ℚ) : Prop where
  rounded : Rounded (r * 2 ^ e) x
  canonical : e ≤ 971 → Canonical r e
  fits : x < maxDouble → e ≤ 971

/-- What is rounded past the last exponent was too large before. -/
lemma exponent_le_of_near {r : ℕ} {e : ℤ} {x : ℚ} (hr : 2 ^ 52 ≤ r ∨ e = -1074)
    (hnear : |(r : ℚ) * 2 ^ e - x| ≤ 2 ^ e / 2) (hmax : x < maxDouble) : e ≤ 971 := by
  by_contra hbig
  have hfull : (2 : ℚ) ^ 52 ≤ r := by exact_mod_cast hr.resolve_right (by omega)
  have hlow := mul_le_mul_of_nonneg_right hfull (two_zpow_pos e).le
  have htop : (2 : ℚ) * 2 ^ (971 : ℤ) ≤ 2 ^ e := by
    rw [← zpow_one_add₀ (by norm_num)]
    exact two_zpow_le (by omega)
  have habove := (abs_le.mp hnear).2
  rw [maxDouble] at hmax
  generalize (2 : ℚ) ^ (971 : ℤ) = top at htop hmax
  linarith

lemma IsKept.roundsTo {r : ℕ} {t : ℤ} {x : ℚ} (h : IsKept r t x) (hshort : r < 2 ^ 53) :
    RoundsTo r t x where
  rounded := ⟨r, t, rfl, h.near, h.place⟩
  canonical hgreatest := ⟨h.pos, hshort, h.least, hgreatest, h.normal⟩
  fits := exponent_le_of_near h.normal h.near

/-- A significand that has become too long is carried to the next exponent. -/
lemma IsKept.carry {t : ℤ} {x : ℚ} (h : IsKept (2 ^ 53) t x) : RoundsTo (2 ^ 52) (t + 1) x := by
  have hleast := h.least
  have hnear := h.near
  have hsame : ((2 ^ 53 : ℕ) : ℚ) * 2 ^ t = (2 ^ 52 : ℕ) * 2 ^ (t + 1) := by
    rw [zpow_add₀ (by norm_num)]
    push_cast
    ring
  have hdouble : (2 : ℚ) ^ t / 2 ≤ 2 ^ (t + 1) / 2 :=
    div_le_div_of_nonneg_right (two_zpow_le (by omega)) (by norm_num)
  rw [hsame] at hnear
  exact ⟨⟨2 ^ 53, t, hsame.symm, hnear, h.place⟩,
    fun hgreatest => ⟨by decide, by decide, by omega, hgreatest, Or.inl le_rfl⟩,
    exponent_le_of_near (Or.inl le_rfl) (hnear.trans hdouble)⟩

/-- **A result is rounded to the nearest double**, if it is neither too large nor below them
all. -/
theorem exists_canonical (s : Sign) {m : ℕ} (hm : 0 < m) {e : ℤ} {acc : Accuracy}
    (he : e ≤ -1074 ∨ 2 ^ 52 ≤ m) {x : ℚ} (h : Marks (.ofMantissaAndAccuracy m acc) (x / 2 ^ e))
    (hmin : minDouble ≤ x) :
    ∃ (r : ℕ) (e' : ℤ) (hr : 0 < r),
      roundWithAccuracy Format.binary64 s m e acc = .finite s r e' hr ∧ RoundsTo r e' x := by
  have hkept := isKept_roundedSignificand hm he h hmin
  rw [roundWithAccuracy_eq s acc he, dif_neg (Nat.ne_of_gt hkept.pos)]
  by_cases hshort : roundedSignificand m e acc < 2 ^ 53
  · rw [if_pos hshort]
    exact ⟨_, _, hkept.pos, rfl, hkept.roundsTo hshort⟩
  · have hfull : roundedSignificand m e acc = 2 ^ 53 :=
      Nat.le_antisymm hkept.le (Nat.le_of_not_lt hshort)
    rw [hfull] at hkept
    rw [if_neg hshort]
    exact ⟨_, _, by decide, rfl, hkept.carry⟩

end RewindRelay.Decimal
