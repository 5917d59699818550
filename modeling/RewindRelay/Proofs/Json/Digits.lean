import RewindRelay.Proofs.Decimal.Shortest
import RewindRelay.Proofs.Json.Number
/-!
# The digits that are scaled

A decimal is laid out with its point somewhere among its digits, with zeros around them, or with a
power of ten behind them.  The reader drops the point again: it is left with the digits as one count
and a power of ten.

* `magnitude?_positional`, `magnitude?_scientific` — the reader collects all the digits.
* `Scaled` — the count and the power of ten that the reader is left with.
* `scaled_numeral` — **they are those of the decimal**, however it is laid out.
-/

namespace RewindRelay.Json

open Decimal

/-! ## Digits and powers of ten -/

lemma ofDigitsFrom_append (value : ℕ) (ds ds' : List Digit) :
    ofDigitsFrom value (ds ++ ds') = ofDigitsFrom (ofDigitsFrom value ds) ds' :=
  List.foldl_append

lemma ofDigitsFrom_zeros (value k : ℕ) :
    ofDigitsFrom value (List.replicate k Digit.zero) = value * 10 ^ k := by
  induction k generalizing value with
  | zero => simp [ofDigitsFrom]
  | succ k ih =>
      have hstep : ofDigitsFrom value (List.replicate (k + 1) Digit.zero) =
          ofDigitsFrom (10 * value) (List.replicate k Digit.zero) := rfl
      rw [hstep, ih, Nat.pow_succ]
      ring

lemma ofDigitsFrom_zero_digits (n : ℕ) : ofDigitsFrom 0 (digits n) = n := ofDigits_digits n

/-- Digits before and after the point are collected into one number. -/
lemma collect_collect {whole fraction : List Digit} {s : ℕ}
    (hs : ofDigitsFrom 0 (whole ++ fraction) = s) (hle : s ≤ maxCount) :
    collect 0 whole = (ofDigitsFrom 0 whole, 0) ∧
      collect (ofDigitsFrom 0 whole) fraction = (s, 0) := by
  rw [ofDigitsFrom_append] at hs
  have hfits : ofDigitsFrom 0 whole ≤ maxCount :=
    (le_ofDigitsFrom fraction _).trans (hs.trans_le hle)
  exact ⟨collect_eq hfits, by rw [collect_eq (hs.trans_le hle), hs]⟩

/-- A number without a power of ten. -/
lemma magnitude?_positional {n : Numeral} {s : ℕ}
    (hs : ofDigitsFrom 0 (n.whole ++ n.fraction) = s) (hle : s ≤ maxCount)
    (hexp : n.exponent = none) : magnitude? n = scale (ofCount s) (-(n.fraction.length : ℤ)) := by
  obtain ⟨hwhole, hall⟩ := collect_collect hs hle
  simp only [magnitude?, hwhole, hall, hexp, Nat.sub_zero, Int.natCast_zero, zero_sub]

lemma collectPower_eq {ds : List Digit} {value : ℕ} (h : ofDigitsFrom value ds ≤ maxPower) :
    collectPower value ds = some (ofDigitsFrom value ds) := by
  induction ds generalizing value with
  | nil => rfl
  | cons d ds ih =>
      have hnext : ofDigitsFrom (10 * value + d.val) ds ≤ maxPower := h
      have hfits := (le_ofDigitsFrom ds _).trans hnext
      rw [collectPower, if_pos hfits, ih hnext]
      rfl

/-- A number with a power of ten. -/
lemma magnitude?_scientific {n : Numeral} {s : ℕ}
    (hs : ofDigitsFrom 0 (n.whole ++ n.fraction) = s) (hle : s ≤ maxCount) {power : ℤ}
    (hpower : power.natAbs ≤ maxPower)
    (hexp : n.exponent = some
      { sign := if power < 0 then .minus else .plus, digits := digits power.natAbs }) :
    magnitude? n = scale (ofCount s) (power - n.fraction.length) := by
  obtain ⟨hwhole, hall⟩ := collect_collect hs hle
  have hcollect : collectPower 0 (digits power.natAbs) = some power.natAbs := by
    have hvalue := ofDigitsFrom_zero_digits power.natAbs
    rw [collectPower_eq (hvalue.trans_le hpower), hvalue]
  by_cases hneg : power < 0
  · rw [if_pos hneg] at hexp
    simp only [magnitude?, hwhole, hall, hexp, Nat.sub_zero, Int.natCast_zero, zero_sub, hcollect]
    congr 1
    omega
  · rw [if_neg hneg] at hexp
    simp only [magnitude?, hwhole, hall, hexp, Nat.sub_zero, Int.natCast_zero, zero_sub, hcollect]
    congr 1
    omega

/-! ## The layout -/

lemma length_digits_le {c : ℕ} (hc : c < 10 ^ 17) : (digits c).length ≤ 17 := by
  rcases Nat.eq_zero_or_pos c with rfl | hpos
  · rw [digits_of_lt (by decide)]
    exact Nat.le_of_ble_eq_true rfl
  · have hlow := (length_digits hpos).1.trans_lt hc
    have hlt := (Nat.pow_lt_pow_iff_right (by decide)).mp hlow
    omega

/-- A number with a point is no plain integer. -/
lemma plain?_of_fraction {n : Numeral} (h : n.fraction ≠ []) : plain? n = none := by
  rw [plain?, if_neg (by simp [h])]

lemma plain?_of_exponent {n : Numeral} {e : Exponent} (h : n.exponent = some e) :
    plain? n = none := by
  rw [plain?, if_neg (by simp [h])]

/-- What is scaled of a number that is laid out positionally, as it is or with one zero more. -/
def Scaled (n : Numeral) (c : ℕ) (w : ℤ) : Prop :=
  plain? n = none ∧ (magnitude? n = scale (ofCount c) w ∨
    ∃ s, 0 < s ∧ s < 2 ^ 64 ∧ magnitude? n = scale (ofCount s) (-1))

variable {c : ℕ} {w : ℤ}

/-- Zeros stand between the point and the digits. -/
lemma scaled_small (negative : Bool) (hlt : c < 10 ^ 17) {zeros : ℕ}
    (hzeros : (zeros : ℤ) + (digits c).length = -w) :
    Scaled { negative, whole := [.zero]
             fraction := List.replicate zeros .zero ++ digits c } c w := by
  have hs : ofDigitsFrom 0 ([Digit.zero] ++ (List.replicate zeros Digit.zero ++ digits c)) = c := by
    have hzero : ofDigitsFrom 0 [Digit.zero] = 0 := rfl
    rw [ofDigitsFrom_append, ofDigitsFrom_append, hzero, ofDigitsFrom_zeros, Nat.zero_mul,
      ofDigitsFrom_zero_digits]
  have hfits : c ≤ maxCount := hlt.le.trans (by decide)
  refine ⟨plain?_of_fraction (by simp [digits_ne_nil]), Or.inl ?_⟩
  rw [magnitude?_positional hs hfits rfl]
  congr 1
  simp only [List.length_append, List.length_replicate]
  omega

/-- The point stands between the digits. -/
lemma scaled_middle (negative : Bool) (hlt : c < 10 ^ 17) {places : ℕ}
    (hplaces : (places : ℤ) = w + (digits c).length) (hmore : places < (digits c).length) :
    Scaled { negative, whole := (digits c).take places
             fraction := (digits c).drop places } c w := by
  have hs : ofDigitsFrom 0 ((digits c).take places ++ (digits c).drop places) = c := by
    rw [List.take_append_drop, ofDigitsFrom_zero_digits]
  have hfits : c ≤ maxCount := hlt.le.trans (by decide)
  refine ⟨plain?_of_fraction (by simpa using hmore), Or.inl ?_⟩
  rw [magnitude?_positional hs hfits rfl]
  congr 1
  simp only [List.length_drop]
  omega

/-- Zeros stand between the digits and the point, and one behind it. -/
lemma scaled_large (negative : Bool) (hpos : 0 < c) {zeros : ℕ}
    (hzeros : (digits c).length + zeros ≤ 16) :
    Scaled { negative, whole := digits c ++ List.replicate zeros .zero
             fraction := [.zero] } c w := by
  have hten : c * 10 ^ zeros < 10 ^ 16 := by
    calc c * 10 ^ zeros
        < 10 ^ (digits c).length * 10 ^ zeros :=
          Nat.mul_lt_mul_of_pos_right (length_digits hpos).2 (Nat.pow_pos (by decide))
      _ = 10 ^ ((digits c).length + zeros) := (Nat.pow_add _ _ _).symm
      _ ≤ 10 ^ 16 := Nat.pow_le_pow_right (by decide) hzeros
  have hs : ofDigitsFrom 0 ((digits c ++ List.replicate zeros Digit.zero) ++ [Digit.zero]) =
      10 * (c * 10 ^ zeros) := by
    rw [ofDigitsFrom_append, ofDigitsFrom_append, ofDigitsFrom_zero_digits, ofDigitsFrom_zeros]
    rfl
  have hmax : maxCount = 2 ^ 64 - 1 := rfl
  refine ⟨plain?_of_fraction (List.cons_ne_nil _ _), Or.inr ⟨10 * (c * 10 ^ zeros), ?_, ?_, ?_⟩⟩
  · exact Nat.mul_pos (by decide) (Nat.mul_pos hpos (Nat.pow_pos (by decide)))
  · omega
  · exact magnitude?_positional hs (by omega) rfl

/-- One digit stands before the point, and a power of ten behind all. -/
lemma scaled_scientific (negative : Bool) (hlt : c < 10 ^ 17) {power : ℤ}
    (hpower : power = w + (digits c).length - 1) (hle : power.natAbs ≤ maxPower) :
    Scaled { negative, whole := (digits c).take 1, fraction := (digits c).drop 1
             exponent := some { sign := if power < 0 then .minus else .plus
                                digits := digits power.natAbs } } c w := by
  have hs : ofDigitsFrom 0 ((digits c).take 1 ++ (digits c).drop 1) = c := by
    rw [List.take_append_drop, ofDigitsFrom_zero_digits]
  have hfits : c ≤ maxCount := hlt.le.trans (by decide)
  have hlen := length_digits_pos c
  refine ⟨plain?_of_exponent rfl, Or.inl ?_⟩
  rw [magnitude?_scientific hs hfits hle rfl]
  congr 1
  simp only [List.length_drop]
  omega

/-- **The digits and the power of ten that are scaled** are those of the decimal that was written,
or its value with one zero after the point. -/
theorem scaled_numeral (negative : Bool) (hpos : 0 < c) (hlt : c < 10 ^ 17) (hlow : -340 ≤ w)
    (hhigh : w ≤ 308) : Scaled (Layout.json.numeral negative c w) c w := by
  have hlen := length_digits_le hlt
  have hlenpos := length_digits_pos c
  have hmax : maxPower = 2 ^ 31 - 1 := rfl
  set lead : ℤ := w + (digits c).length - 1 with hlead
  have hpositional : Layout.json.isPositional lead = decide (-5 ≤ lead ∧ lead ≤ 15) := rfl
  rw [Layout.numeral]
  simp only [← hlead, hpositional, decide_eq_true_eq]
  by_cases hinside : -5 ≤ lead ∧ lead ≤ 15
  · rw [if_pos hinside]
    by_cases hneg : lead < 0
    · rw [if_pos hneg]
      exact scaled_small negative hlt (by omega)
    · rw [if_neg hneg]
      by_cases hmore : lead.toNat + 1 < (digits c).length
      · have hnone : lead.toNat + 1 - (digits c).length = 0 := by omega
        have hfraction : Layout.json.fraction ((digits c).drop (lead.toNat + 1)) =
            (digits c).drop (lead.toNat + 1) := by
          rw [Layout.fraction, if_neg]
          simpa using fun h => absurd hmore (by omega)
        rw [hnone, List.replicate_zero, List.append_nil, hfraction]
        exact scaled_middle negative hlt (by omega) hmore
      · have hnone : (digits c).drop (lead.toNat + 1) = [] := List.drop_eq_nil_of_le (by omega)
        have hfraction : Layout.json.fraction [] = [Digit.zero] := rfl
        rw [hnone, hfraction, List.take_of_length_le (by omega)]
        exact scaled_large negative hpos (by omega)
  · rw [if_neg hinside]
    exact scaled_scientific negative hlt hlead (by omega)

end RewindRelay.Json
