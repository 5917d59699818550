import RewindRelay.Proofs.Decimal.Double
import RewindRelay.Proofs.Json.Digits
/-!
# Finite doubles are read

The reader converts the digits of a number once and multiplies or divides by powers of ten.  Each
step is nearly exact, so that the decimal of a finite double is read as a finite double again,
though not always as the same one.  The largest doubles and the least one are so close to the end
that a bound does not settle them: they are read one by one.

* `exists_scale_neg`, `exists_scale_lt`, `exists_scale_nonneg` — a count, scaled.
* `exists_scale` — **the decimal of a double is scaled to a double.**
* `exists_double?` — **what is written for a finite double is read as one.**
-/

namespace RewindRelay.Json

open Decimal

variable {c : ℕ} {w : ℤ}

/-! ## Scaling -/

lemma scale_of_neg {w : ℤ} (hneg : w < 0) (hlow : -308 ≤ w) (f : Float) :
    scale f w = some (f / powerOfTen w.natAbs) := by
  rw [scale, if_pos (by omega), if_neg (by omega)]

lemma scale_of_nonneg {w : ℤ} (hpos : 0 ≤ w) (hhigh : w ≤ 308) {f : Float}
    (hinf : (f * powerOfTen w.natAbs).isInf = false) :
    scale f w = some (f * powerOfTen w.natAbs) := by
  rw [scale, if_pos (by omega), if_pos hpos]
  simp only [hinf, Bool.false_eq_true, if_false]

lemma scale_of_lt {w : ℤ} (hlow : w < -308) {f : Float} (hf : (f == 0) = false) :
    scale f w = scale (f / powerOfTen 308) (w + 308) := by
  conv_lhs => rw [scale]
  rw [if_neg (by omega), if_neg (by simp [hf]), if_neg (by omega)]

/-- Nearness in round figures. -/
def Roughly (a exact : ℚ) : Prop := 99 / 100 * exact ≤ a ∧ a ≤ 101 / 100 * exact

/-- Only the last doubles of all are rounded by as much as a hundredth. -/
lemma roughly_of_near {a x : ℚ} (h : Near a x) (hx : 100 * minDouble ≤ x) : Roughly a x := by
  have hmin : 0 < minDouble := two_zpow_pos _
  have hbound : max (x / 2 ^ 52) minDouble ≤ x / 100 := by
    refine max_le ?_ (by linarith)
    exact div_le_div_of_nonneg_left (by linarith) (by norm_num) (by norm_num)
  obtain ⟨hdown, hup⟩ := abs_le.mp (h.trans hbound)
  exact ⟨by linarith, by linarith⟩

/-- The least double, against the largest power of ten that is divided by. -/
lemma minDouble_mul_le : minDouble * (10000 * 10 ^ 308) ≤ 1 := by
  have hcast : (10000 * 10 ^ 308 : ℚ) ≤ 2 ^ 1074 := by exact_mod_cast ten_pow_bounds.2.1
  have hinv : minDouble * 2 ^ 1074 = 1 := by
    rw [minDouble, ← zpow_natCast, ← zpow_add₀ (by norm_num)]
    rfl
  rw [← hinv]
  exact mul_le_mul_of_nonneg_left hcast (two_zpow_pos _).le

lemma one_le_ten_pow (n : ℕ) : (1 : ℚ) ≤ 10 ^ n := one_le_pow₀ (by norm_num)

lemma minDouble_mul_ten_pow_le {n : ℕ} (hn : n ≤ 308) : minDouble * (10000 * 10 ^ n) ≤ 1 := by
  have hpow : (10 : ℚ) ^ n ≤ 10 ^ 308 := pow_le_pow_right₀ (by norm_num) hn
  refine le_trans ?_ minDouble_mul_le
  exact mul_le_mul_of_nonneg_left (mul_le_mul_of_nonneg_left hpow (by norm_num))
    (two_zpow_pos _).le

lemma hundred_minDouble_le : 100 * minDouble ≤ 1 := by
  have hsmall := minDouble_mul_ten_pow_le (n := 0) (by decide)
  have hmin : 0 < minDouble := two_zpow_pos _
  rw [pow_zero] at hsmall
  linarith

/-- A power of ten as the reader has it. -/
lemma exists_powerOfTen {n : ℕ} (hn : n ≤ 308) :
    ∃ b, HasValue (powerOfTen n) b ∧ Near b (10 ^ n) ∧ Roughly b (10 ^ n) := by
  obtain ⟨b, hb, hrounded⟩ := hasValue_ofScientific hn
  exact ⟨b, hb, hrounded.near,
    roughly_of_near hrounded.near (hundred_minDouble_le.trans (one_le_ten_pow n))⟩

/-- A count as the reader has it. -/
lemma exists_ofCount {n : ℕ} (hpos : 0 < n) (hlt : n < 2 ^ 64) :
    ∃ a, HasValue (ofCount n) a ∧ Near a n ∧ Roughly a n := by
  obtain ⟨a, ha, hrounded⟩ := hasValue_ofCount hpos hlt
  have hone : (1 : ℚ) ≤ n := by exact_mod_cast hpos
  exact ⟨a, ha, hrounded.near, roughly_of_near hrounded.near (hundred_minDouble_le.trans hone)⟩

/-- One division, of a double that is not too small for it. -/
lemma exists_div {f : Float} {a : ℚ} (hf : HasValue f a) {n : ℕ} (hn : n ≤ 308)
    (hmin : minDouble * (101 / 100 * 10 ^ n) ≤ a) (hmax : a < 2 ^ 70) :
    ∃ q, HasValue (f / powerOfTen n) q ∧ ∃ b, Roughly b (10 ^ n) ∧ Near q (a / b) := by
  obtain ⟨b, hb, -, hround⟩ := exists_powerOfTen hn
  have hbpos := hb.value_pos
  have hmin0 : 0 < minDouble := two_zpow_pos _
  have hten := one_le_ten_pow n
  have hlow : minDouble ≤ a / b := by
    rw [le_div_iff₀ hbpos]
    exact (mul_le_mul_of_nonneg_left hround.2 hmin0.le).trans hmin
  have hhigh : a / b < maxDouble := by
    have hhalf : 1 / 2 ≤ b := by linarith [hround.1]
    refine lt_trans ?_ (two_pow_lt_maxDouble (n := 71) (by decide))
    rw [div_lt_iff₀ hbpos]
    linarith
  obtain ⟨q, hq, hrounded⟩ := hf.div hb hlow (Or.inl hhigh)
  exact ⟨q, hq, b, hround, hrounded.near⟩

/-- A count is divided by a power of ten. -/
lemma exists_scale_neg {n : ℕ} (hpos : 0 < n) (hlt : n < 2 ^ 64) {w : ℤ} (hneg : w < 0)
    (hlow : -308 ≤ w) : ∃ y a, scale (ofCount n) w = some y ∧ HasValue y a := by
  obtain ⟨a, ha, -, hround⟩ := exists_ofCount hpos hlt
  have hone : (1 : ℚ) ≤ n := by exact_mod_cast hpos
  have hmax : (n : ℚ) < 2 ^ 64 := by exact_mod_cast hlt
  have hsmall := minDouble_mul_ten_pow_le (n := w.natAbs) (by omega)
  have hmin : 0 < minDouble := two_zpow_pos _
  obtain ⟨q, hq, -⟩ := exists_div ha (n := w.natAbs) (by omega) (by linarith [hround.1])
    (by linarith [hround.2])
  exact ⟨_, q, scale_of_neg hneg hlow _, hq⟩

/-- A count is divided by two powers of ten, and what is left is still a double. -/
lemma exists_div_div {n k l : ℕ} (hpos : 0 < n) (hlt : n < 2 ^ 64) (hk : k ≤ 308) (hl : l ≤ 308)
    (hmin : 3 / 2 * minDouble * (10 ^ k * 10 ^ l) ≤ n) :
    ∃ y, HasValue (ofCount n / powerOfTen k / powerOfTen l) y := by
  obtain ⟨a, ha, -, hround⟩ := exists_ofCount hpos hlt
  have hone : (1 : ℚ) ≤ n := by exact_mod_cast hpos
  have hmax : (n : ℚ) < 2 ^ 64 := by exact_mod_cast hlt
  have hsmall := minDouble_mul_ten_pow_le hk
  have hmin0 : 0 < minDouble := two_zpow_pos _
  have hten := one_le_ten_pow k
  have hten' := one_le_ten_pow l
  obtain ⟨q, hq, b, hb, hnear⟩ := exists_div ha hk (by linarith [hround.1])
    (by linarith [hround.2])
  have hbpos : 0 < b := by linarith [hb.1]
  -- what is left after the first division, in round figures
  have hfirst : 98 / 100 * (n / 10 ^ k) ≤ a / b := by
    rw [le_div_iff₀ hbpos]
    calc 98 / 100 * ((n : ℚ) / 10 ^ k) * b
        ≤ 98 / 100 * (n / 10 ^ k) * (101 / 100 * 10 ^ k) :=
          mul_le_mul_of_nonneg_left hb.2 (by positivity)
      _ = 98 / 100 * (101 / 100) * n := by field_simp
      _ ≤ 99 / 100 * n := by linarith
      _ ≤ a := hround.1
  have hround' : Roughly q (a / b) := by
    refine roughly_of_near hnear (le_trans ?_ hfirst)
    rw [← mul_div_assoc, le_div_iff₀ (by linarith)]
    linarith
  have hhigh : a / b < 2 ^ 66 := by
    rw [div_lt_iff₀ hbpos]
    linarith [hround.2, hb.1]
  have hleft : minDouble * (101 / 100 * 10 ^ l) ≤ q := by
    have hover : 3 / 2 * minDouble * 10 ^ l ≤ n / 10 ^ k := by
      rw [le_div_iff₀ (by linarith)]
      linarith
    have hleast : 0 < minDouble * 10 ^ l := mul_pos hmin0 (by linarith)
    linarith [hround'.1]
  obtain ⟨y, hy, -⟩ := exists_div hq hl hleft (by linarith [hround'.2])
  exact ⟨y, hy⟩

/-- A small count stays a double when it is divided. -/
lemma exists_scale_lt {n : ℕ} (hpos : 0 < n) (hlt : n < 2 ^ 64) {w : ℤ} (hlow : -616 ≤ w)
    (hsmall : w < -308) (hmin : 3 / 2 * minDouble ≤ n * 10 ^ w) :
    ∃ y a, scale (ofCount n) w = some y ∧ HasValue y a := by
  obtain ⟨a, ha, -⟩ := hasValue_ofCount hpos hlt
  have hsplit : (10 : ℚ) ^ w * (10 ^ 308 * 10 ^ (w + 308).natAbs) = 1 := by
    rw [← zpow_natCast, ← zpow_natCast, ← zpow_add₀ (by norm_num), ← zpow_add₀ (by norm_num)]
    exact (congrArg _ (by omega)).trans (zpow_zero _)
  have hscaled : 3 / 2 * minDouble * (10 ^ 308 * 10 ^ (w + 308).natAbs) ≤ (n : ℚ) := by
    calc 3 / 2 * minDouble * (10 ^ 308 * 10 ^ (w + 308).natAbs)
        ≤ n * 10 ^ w * (10 ^ 308 * 10 ^ (w + 308).natAbs) :=
          mul_le_mul_of_nonneg_right hmin (by positivity)
      _ = n := by rw [mul_assoc, hsplit, mul_one]
  obtain ⟨y, hy⟩ := exists_div_div hpos hlt le_rfl (l := (w + 308).natAbs) (by omega) hscaled
  refine ⟨_, y, ?_, hy⟩
  rw [scale_of_lt hsmall ha.beq_zero, scale_of_neg (by omega) (by omega)]

lemma le_of_near {a x : ℚ} (h : Near a x) (hx : 1 ≤ x) : a ≤ (1 + 1 / 2 ^ 52) * x := by
  have hmin : minDouble ≤ 1 / 2 ^ 52 := by
    rw [minDouble, one_div, ← zpow_natCast, ← zpow_neg]
    exact two_zpow_le (by decide)
  have hbound : max (x / 2 ^ 52) minDouble ≤ x / 2 ^ 52 := by
    refine max_le le_rfl (hmin.trans ?_)
    exact div_le_div_of_nonneg_right hx (by norm_num)
  have hup := (abs_le.mp (h.trans hbound)).2
  linarith

/-- A count is multiplied by a power of ten. -/
lemma exists_scale_nonneg {n : ℕ} (hpos : 0 < n) (hlt : n < 2 ^ 64) {w : ℤ} (hlow : 0 ≤ w)
    (hhigh : w ≤ 308) (hmax : (n : ℚ) * 10 ^ w ≤ (2 ^ 53 - 11 / 2) * 2 ^ (971 : ℤ)) :
    ∃ y a, scale (ofCount n) w = some y ∧ HasValue y a := by
  obtain ⟨a, ha, hnear, hround⟩ := exists_ofCount hpos hlt
  obtain ⟨b, hb, hnear', hround'⟩ := exists_powerOfTen (n := w.natAbs) (by omega)
  have hone : (1 : ℚ) ≤ n := by exact_mod_cast hpos
  have hten := one_le_ten_pow w.natAbs
  have hpow : (10 : ℚ) ^ w = 10 ^ w.natAbs := by
    rw [← zpow_natCast]
    exact congrArg _ (by omega)
  rw [hpow] at hmax
  have hbelow : minDouble ≤ a * b := by
    have hprod : (99 / 100 : ℚ) * (99 / 100) ≤ a * b :=
      mul_le_mul (by linarith [hround.1]) (by linarith [hround'.1]) (by norm_num)
        ha.value_pos.le
    linarith [hundred_minDouble_le]
  have habove : a * b < maxDouble := by
    have hunit := two_zpow_pos 971
    have hexact : a * b ≤ (1 + 1 / 2 ^ 52) * (1 + 1 / 2 ^ 52) * (n * 10 ^ w.natAbs) := by
      calc a * b
          ≤ (1 + 1 / 2 ^ 52) * n * ((1 + 1 / 2 ^ 52) * 10 ^ w.natAbs) :=
            mul_le_mul (le_of_near hnear hone) (le_of_near hnear' hten) hb.value_pos.le
              (by positivity)
        _ = (1 + 1 / 2 ^ 52) * (1 + 1 / 2 ^ 52) * (n * 10 ^ w.natAbs) := by ring
    rw [maxDouble]
    generalize (2 : ℚ) ^ (971 : ℤ) = top at hmax hunit ⊢
    generalize (n : ℚ) * 10 ^ w.natAbs = exact at hmax hexact
    linarith
  obtain ⟨c, hc, -⟩ := ha.mul hb hbelow (Or.inl habove)
  exact ⟨_, c, scale_of_nonneg hlow hhigh hc.isInf_eq, hc⟩

/-! ## Finite doubles -/

/-- The last doubles of all: a product or a quotient could leave the doubles here. -/
def IsLast (m : ℕ) (e : ℤ) : Prop := m = 1 ∧ e = -1074 ∨ 2 ^ 53 - 6 < m ∧ e = 971

/-- This is the leading power of ten, and every decimal that could be the shortest is scaled to a
double. -/
def areScaled (lead : ℤ) (m : ℕ) (e : ℤ) : Bool :=
  let (num, den) := gridFraction (4 * m) (e - 2) lead
  decide (den ≤ num ∧ num < 10 * den) &&
    (List.range 17).all fun extra =>
      ((Neighbourhood.of m e).onGrid .toEven (lead - extra)).all fun c =>
        let (c', w) := dropZeros c (lead - extra)
        (scale (ofCount c') w).any (valueHas (fun _ _ => true) ·.toModel.unpack)

lemma areScaled_largest : ∀ k < 5, areScaled 308 (2 ^ 53 - 1 - k) 971 = true := by
  decide +kernel

lemma areScaled_least : areScaled (-324) 1 (-1074) = true := by
  decide +kernel

lemma exists_scale_of_areScaled {lead : ℤ} {m : ℕ} {e : ℤ} (hc : Canonical m e)
    (h : areScaled lead m e = true) (hshortest : shortest .toEven m e = (c, w)) :
    ∃ y a, scale (ofCount c) w = some y ∧ HasValue y a := by
  simp only [areScaled, Bool.and_eq_true, decide_eq_true_eq, List.all_eq_true] at h
  obtain ⟨⟨hlow, hhigh⟩, hall⟩ := h
  have hpos := hc.pos
  obtain ⟨extra, c₀, hextra, hgrid, hdrop⟩ := exists_shortest hc .toEven
  rw [leadingPower_eq (by omega) hlow hhigh] at hgrid hdrop
  have hscaled := hall extra (List.mem_range.mpr hextra)
  rw [hgrid, Option.all_some, ← hdrop, hshortest, Option.any_eq_true] at hscaled
  obtain ⟨y, hy, htest⟩ := hscaled
  obtain ⟨m', e', hvalue, -⟩ := exists_of_valueHas htest
  exact ⟨y, _, hy, hvalue⟩

lemma exists_scale_of_isLast {m : ℕ} {e : ℤ} (hc : Canonical m e) (h : IsLast m e)
    (hshortest : shortest .toEven m e = (c, w)) :
    ∃ y a, scale (ofCount c) w = some y ∧ HasValue y a := by
  rcases h with ⟨rfl, rfl⟩ | ⟨hm, rfl⟩
  · exact exists_scale_of_areScaled hc areScaled_least hshortest
  · have hlt := hc.lt
    have hk : 2 ^ 53 - 1 - (2 ^ 53 - 1 - m) = m := by omega
    have hlargest := areScaled_largest (2 ^ 53 - 1 - m) (by omega)
    rw [hk] at hlargest
    exact exists_scale_of_areScaled hc hlargest hshortest

/-- With a lower power of ten, seventeen digits do not come up to half the least double. -/
lemma ten_zpow_lt_minDouble : (10 : ℚ) ^ 17 * 10 ^ (-341 : ℤ) < 1 / 2 * 2 ^ (-1074 : ℤ) := by
  have hten : (10 : ℚ) ^ 17 * 10 ^ (-341 : ℤ) = (10 ^ 324)⁻¹ := by
    rw [← zpow_natCast, ← zpow_natCast, ← zpow_neg, ← zpow_add₀ (by norm_num)]
    rfl
  have htwo : (1 / 2 : ℚ) * 2 ^ (-1074 : ℤ) = (2 * 2 ^ 1074)⁻¹ := by
    rw [mul_inv, one_div, zpow_neg, ← zpow_natCast]
    rfl
  rw [hten, htwo]
  exact (inv_lt_inv₀ (by positivity) (by positivity)).mpr (by exact_mod_cast ten_pow_bounds.2.2)

/-- No higher power of ten is as small as the largest double. -/
lemma largest_lt_ten_zpow : (2 : ℚ) ^ 53 * 2 ^ (971 : ℤ) < 10 ^ (309 : ℤ) := by
  exact_mod_cast ten_pow_bounds.1.2

/-- The power of ten that is written for a double. -/
lemma power_bounds {m : ℕ} {e : ℤ} (hc : Canonical m e) (hpos : 0 < c) (hlt : c < 10 ^ 17)
    (hlow : ((m : ℚ) - 1 / 2) * 2 ^ e ≤ c * 10 ^ w)
    (hhigh : (c : ℚ) * 10 ^ w ≤ (m + 1 / 2) * 2 ^ e) : -340 ≤ w ∧ w ≤ 308 := by
  have hcone : (1 : ℚ) ≤ c := by exact_mod_cast hpos
  have hcmax : (c : ℚ) < 10 ^ 17 := by exact_mod_cast hlt
  have hmone : (1 : ℚ) ≤ m := by exact_mod_cast hc.pos
  have hmmax : (m : ℚ) + 1 ≤ 2 ^ 53 := by exact_mod_cast hc.lt
  constructor
  · by_contra hless
    refine absurd ten_zpow_lt_minDouble (not_lt.mpr ?_)
    calc (1 / 2 : ℚ) * 2 ^ (-1074 : ℤ)
        ≤ (m - 1 / 2) * 2 ^ e :=
          mul_le_mul (by linarith) (two_zpow_le hc.least) (two_zpow_pos _).le (by linarith)
      _ ≤ c * 10 ^ w := hlow
      _ ≤ 10 ^ 17 * 10 ^ (-341 : ℤ) :=
          mul_le_mul hcmax.le (ten_zpow_le (by omega)) (ten_zpow_pos _).le (by positivity)
  · by_contra hmore
    refine absurd largest_lt_ten_zpow (not_lt.mpr ?_)
    calc (10 : ℚ) ^ (309 : ℤ)
        ≤ 10 ^ w := ten_zpow_le (by omega)
      _ ≤ c * 10 ^ w := le_mul_of_one_le_left (ten_zpow_pos w).le hcone
      _ ≤ (m + 1 / 2) * 2 ^ e := hhigh
      _ ≤ 2 ^ 53 * 2 ^ (971 : ℤ) :=
          mul_le_mul (by linarith) (two_zpow_le hc.greatest) (two_zpow_pos _).le (by positivity)

/-- Above the least double of all, the decimal is well above it. -/
lemma le_of_not_isLast {m : ℕ} {e : ℤ} (hc : Canonical m e) (h : ¬ IsLast m e) :
    3 / 2 * minDouble ≤ ((m : ℚ) - 1 / 2) * 2 ^ e := by
  have hm : 2 ≤ m := by
    have hpos := hc.pos
    have hnormal := hc.normal
    by_contra hless
    exact h (Or.inl ⟨by omega, by omega⟩)
  have hmtwo : (2 : ℚ) ≤ m := by exact_mod_cast hm
  exact mul_le_mul (by linarith) (two_zpow_le hc.least) (two_zpow_pos _).le (by linarith)

/-- Below the largest doubles of all, the decimal is well below them. -/
lemma le_largest_of_not_isLast {m : ℕ} {e : ℤ} (hc : Canonical m e) (h : ¬ IsLast m e) :
    ((m : ℚ) + 1 / 2) * 2 ^ e ≤ (2 ^ 53 - 11 / 2) * 2 ^ (971 : ℤ) := by
  have hgreatest := hc.greatest
  rcases eq_or_lt_of_le hgreatest with rfl | hless
  · have hm : m + 6 ≤ 2 ^ 53 := by
      by_contra hbig
      exact h (Or.inr ⟨by omega, rfl⟩)
    have hmq : (m : ℚ) + 6 ≤ 2 ^ 53 := by exact_mod_cast hm
    exact mul_le_mul_of_nonneg_right (by linarith) (two_zpow_pos _).le
  · have hmmax : (m : ℚ) + 1 ≤ 2 ^ 53 := by exact_mod_cast hc.lt
    have hpow := two_zpow_le (e := e) (f := 970) (by omega)
    have hdouble : (2 : ℚ) ^ (971 : ℤ) = 2 * 2 ^ (970 : ℤ) := by
      rw [show (971 : ℤ) = 1 + 970 by norm_num, zpow_add₀ (by norm_num), zpow_one]
    have hunit := two_zpow_pos 970
    have hsmall : ((m : ℚ) + 1 / 2) * 2 ^ e ≤ 2 ^ 53 * 2 ^ (970 : ℤ) :=
      mul_le_mul (by linarith) hpow (two_zpow_pos _).le (by norm_num)
    rw [hdouble]
    generalize (2 : ℚ) ^ (970 : ℤ) = top at hsmall hunit ⊢
    linarith

/-- **The decimal of a double is scaled to a double.** -/
theorem exists_scale {m : ℕ} {e : ℤ} (hc : Canonical m e)
    (hshortest : shortest .toEven m e = (c, w)) :
    ∃ y a, scale (ofCount c) w = some y ∧ HasValue y a := by
  by_cases hlast : IsLast m e
  · exact exists_scale_of_isLast hc hlast hshortest
  obtain ⟨hpos, hlt, hlow, hhigh⟩ := shortest_spec hc _ hshortest
  obtain ⟨hwlow, hwhigh⟩ := power_bounds hc hpos hlt hlow hhigh
  have hlt' : c < 2 ^ 64 := hlt.trans (by decide)
  rcases lt_or_ge w (-308) with hsmall | hge
  · exact exists_scale_lt hpos hlt' (by omega) hsmall ((le_of_not_isLast hc hlast).trans hlow)
  · rcases lt_or_ge w 0 with hneg | hnonneg
    · exact exists_scale_neg hpos hlt' hneg hge
    · exact exists_scale_nonneg hpos hlt' hnonneg hwhigh
        (hhigh.trans (le_largest_of_not_isLast hc hlast))

/-- **What is written for a positive double is read as one**, whatever its sign. -/
theorem exists_magnitude {m : ℕ} {e : ℤ} (hc : Canonical m e) (negative : Bool) :
    plain? (Layout.json.finite negative m e) = none ∧
      ∃ y a, magnitude? (Layout.json.finite negative m e) = some y ∧ HasValue y a := by
  obtain ⟨c, w, hshortest⟩ : ∃ c w, shortest .toEven m e = (c, w) := ⟨_, _, rfl⟩
  have hfinite : Layout.json.finite negative m e = Layout.json.numeral negative c w := by
    have htie : shortest Layout.json.tie m e = (c, w) := hshortest
    rw [Layout.finite, if_neg (Nat.ne_of_gt hc.pos), htie]
  obtain ⟨hpos, hlt, hlow, hhigh⟩ := shortest_spec hc _ hshortest
  obtain ⟨hwlow, hwhigh⟩ := power_bounds hc hpos hlt hlow hhigh
  obtain ⟨hplain, hmagnitude⟩ := scaled_numeral negative hpos hlt hwlow hwhigh
  rw [hfinite]
  refine ⟨hplain, ?_⟩
  rcases hmagnitude with h | ⟨s, hs, hslt, h⟩
  · rw [h]
    exact exists_scale hc hshortest
  · rw [h]
    exact exists_scale_neg hs hslt (by decide) (by decide)

lemma negative_numeral (l : Layout) (negative : Bool) (c : ℕ) (w : ℤ) :
    (l.numeral negative c w).negative = negative := by
  simp only [Layout.numeral]
  split_ifs <;> rfl

lemma negative_finite (l : Layout) (negative : Bool) (m : ℕ) (e : ℤ) :
    (l.finite negative m e).negative = negative := by
  rw [Layout.finite]
  split_ifs
  · rfl
  · exact negative_numeral _ _ _ _

/-- Zero is read as zero, with its sign. -/
lemma double?_zero : ∀ negative : Bool,
    (double? (Layout.json.finite negative 0 0)).any (·.isFinite) = true := by
  decide +kernel

/-- **What is written for a finite double is read as a finite one**, and as a positive one unless it
is zero or has a sign. -/
theorem exists_double? {m : ℕ} {e : ℤ} (h : m = 0 ∨ Canonical m e) (negative : Bool) :
    ∃ y, double? (Layout.json.finite negative m e) = some y ∧ y.isFinite = true ∧
      (negative = false → 0 < m → 0 < y) := by
  rcases h with rfl | hc
  · have hzero := double?_zero negative
    rw [Option.any_eq_true] at hzero
    obtain ⟨y, hy, hfinite⟩ := hzero
    exact ⟨y, hy, hfinite, fun _ h => absurd h (Nat.lt_irrefl 0)⟩
  · obtain ⟨hplain, y, a, hy, ha⟩ := exists_magnitude hc negative
    rw [double?, hplain, hy, negative_finite]
    cases negative with
    | false => exact ⟨y, rfl, ha.isFinite, fun _ _ => ha.pos⟩
    | true => exact ⟨-y, rfl, ha.isFinite_neg, fun h => absurd h (by decide)⟩

end RewindRelay.Json
