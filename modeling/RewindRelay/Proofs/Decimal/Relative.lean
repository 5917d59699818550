import RewindRelay.Proofs.Decimal.Double
/-!
# Relative errors

Half a unit in the last place is a small part of the number itself, as long as the unit shrinks
with the number.  Next to zero it no longer does; but what is a whole number of least doubles is not
rounded there at all.  So a product with a count is off by a relative error wherever it lies, and a
quotient if it is not next to zero.

* `roundoff`, `Errs` — a result that is off by a relative error.
* `eq_of_near` — **what has no place after the last one is not changed.**
* `Rounded.errs`, `Rounded.errs_of_whole` — a rounded result is off by a relative error.
* `hasValue_ofCount_of_lt` — a count of 53 bits is converted exactly.
* `HasValue.count_mul`, `HasValue.div_errs` — **products and quotients of doubles.**
-/

namespace RewindRelay.Decimal

/-- The largest relative error of a rounded result. -/
def roundoff : ℚ := 1 / 2 ^ 53

/-- Off by a relative error. -/
def Errs (a exact : ℚ) : Prop := ∃ ε, |ε| ≤ roundoff ∧ a = exact * (1 + ε)

variable {a b exact : ℚ} {x y : Float}

lemma roundoff_pos : 0 < roundoff := by norm_num [roundoff]

lemma Errs.refl (a : ℚ) : Errs a a :=
  ⟨0, abs_zero.trans_le roundoff_pos.le, by rw [add_zero, mul_one]⟩

/-- It is at least half of the exact number, and at most twice as much. -/
lemma Errs.bounds (h : Errs a exact) (hnonneg : 0 ≤ exact) : exact / 2 ≤ a ∧ a ≤ exact * 2 := by
  obtain ⟨ε, hε, rfl⟩ := h
  obtain ⟨hdown, hup⟩ := abs_le.mp hε
  rw [roundoff] at hdown hup
  rw [div_eq_mul_one_div]
  exact ⟨mul_le_mul_of_nonneg_left (by linarith) hnonneg,
    mul_le_mul_of_nonneg_left (by linarith) hnonneg⟩

lemma errs_of_abs_le (hpos : 0 < exact) (h : |a - exact| ≤ exact / 2 ^ 53) : Errs a exact := by
  refine ⟨(a - exact) / exact, ?_, ?_⟩
  · rw [abs_div, abs_of_pos hpos, div_le_iff₀ hpos, roundoff, one_div_mul_eq_div]
    exact h
  · rw [mul_add, mul_one, mul_div_cancel₀ _ hpos.ne', add_sub_cancel]

/-- **What has no place after the last one is not changed.** -/
theorem eq_of_near {r n : ℕ} {t u : ℤ} (hle : t ≤ u)
    (h : |(r : ℚ) * 2 ^ t - n * 2 ^ u| ≤ 2 ^ t / 2) : (r : ℚ) * 2 ^ t = n * 2 ^ u := by
  have hunit := two_zpow_pos t
  have hplaces : (2 : ℚ) ^ u = 2 ^ (u - t).toNat * 2 ^ t := by
    rw [← zpow_natCast, ← zpow_add₀ (by norm_num)]
    congr 1
    omega
  rw [hplaces, ← mul_assoc] at h ⊢
  rw [← sub_mul, abs_mul, abs_of_pos hunit, div_eq_mul_one_div, mul_comm,
    mul_le_mul_iff_right₀ hunit] at h
  have hwhole : |(r : ℤ) - n * 2 ^ (u - t).toNat| < 1 := by
    have hcast : ((|(r : ℤ) - n * 2 ^ (u - t).toNat| : ℤ) : ℚ) < (1 : ℤ) := by
      push_cast
      linarith
    exact_mod_cast hcast
  have hsame : (r : ℤ) = n * 2 ^ (u - t).toNat := sub_eq_zero.mp (Int.abs_lt_one_iff.mp hwhole)
  have hcast : (r : ℚ) = n * 2 ^ (u - t).toNat := by exact_mod_cast hsame
  rw [hcast]

/-- Above the least doubles the last place is small. -/
lemma Rounded.errs (h : Rounded a exact) (hlow : (2 : ℚ) ^ (-1022 : ℤ) ≤ exact) :
    Errs a exact := by
  obtain ⟨r, t, -, hnear, hplace⟩ := h
  refine errs_of_abs_le ((two_zpow_pos _).trans_le hlow) (hnear.trans ?_)
  have hsmall : (2 : ℚ) ^ t ≤ exact / 2 ^ 52 := by
    refine hplace.elim id ?_
    rintro rfl
    rw [le_div_iff₀ (by norm_num), ← zpow_natCast, ← zpow_add₀ (by norm_num)]
    exact hlow
  linarith

/-- A whole number of least doubles. -/
lemma Rounded.errs_of_whole (h : Rounded a exact) (hpos : 0 < exact) {n : ℕ} {u : ℤ}
    (hwhole : exact = n * 2 ^ u) (hu : -1074 ≤ u) : Errs a exact := by
  obtain ⟨r, t, rfl, hnear, hsmall | rfl⟩ := h
  · exact errs_of_abs_le hpos (hnear.trans (by linarith))
  · rw [hwhole] at hnear ⊢
    rw [eq_of_near hu hnear]
    exact .refl _

/-- **A count of 53 bits is converted exactly.** -/
theorem hasValue_ofCount_of_lt {n : ℕ} (hpos : 0 < n) (hlt : n < 2 ^ 53) :
    HasValue (ofCount n) n := by
  obtain ⟨a, ha, r, t, rfl, hnear, hplace⟩ := hasValue_ofCount hpos (hlt.trans (by decide))
  have hle : t ≤ 0 := by
    rcases hplace with hsmall | rfl
    · have hbound : (n : ℚ) < 2 ^ 53 := by exact_mod_cast hlt
      have htwo : (2 : ℚ) ^ t < 2 ^ (1 : ℤ) := by
        refine hsmall.trans_lt ?_
        rw [div_lt_iff₀ (by norm_num)]
        linarith
      exact Int.lt_add_one_iff.mp ((zpow_lt_zpow_iff_right₀ (by norm_num)).mp htwo)
    · decide
  have hwhole : (n : ℚ) = n * 2 ^ (0 : ℤ) := by rw [zpow_zero, mul_one]
  rw [hwhole] at hnear ⊢
  rwa [← eq_of_near hle hnear]

/-- **A double times a count**, unless it is too large. -/
theorem HasValue.count_mul {n : ℕ} (hpos : 0 < n) (hlt : n < 2 ^ 53) (hy : HasValue y b)
    (hfinite : (ofCount n * y).isFinite = true) :
    ∃ c, HasValue (ofCount n * y) c ∧ Errs c (n * b) := by
  have hn : (1 : ℚ) ≤ n := by exact_mod_cast hpos
  have hb := hy.value_pos
  obtain ⟨m, e, hm, hu, hc, hvalue⟩ := id hy
  have hwhole : (n : ℚ) * b = (n * m : ℕ) * 2 ^ e := by
    rw [hvalue, Nat.cast_mul, mul_assoc]
  have hmin : minDouble ≤ n * b := by
    have hone : (1 : ℚ) ≤ m := by exact_mod_cast hm
    calc minDouble ≤ 2 ^ e := two_zpow_le hc.least
      _ ≤ m * 2 ^ e := le_mul_of_one_le_left (two_zpow_pos e).le hone
      _ = b := hvalue.symm
      _ ≤ n * b := le_mul_of_one_le_left hb.le hn
  obtain ⟨c, hvalue', hrounded⟩ :=
    (hasValue_ofCount_of_lt hpos hlt).mul hy hmin (Or.inr hfinite)
  have hproduct : (0 : ℚ) < n * b := mul_pos (by linarith) hb
  exact ⟨c, hvalue', hrounded.errs_of_whole hproduct hwhole hc.least⟩

/-- **A quotient** that is neither too large nor next to zero. -/
theorem HasValue.div_errs (hx : HasValue x a) (hy : HasValue y b)
    (hlow : (2 : ℚ) ^ (-1022 : ℤ) ≤ a / b) (hhigh : a / b < maxDouble) :
    ∃ c, HasValue (x / y) c ∧ Errs c (a / b) := by
  have hmin : minDouble ≤ a / b := (two_zpow_le (by decide)).trans hlow
  obtain ⟨c, hc, hrounded⟩ := hx.div hy hmin (Or.inl hhigh)
  exact ⟨c, hc, hrounded.errs hlow⟩

end RewindRelay.Decimal
