import RewindRelay.Proofs.Decimal.Rounding
/-!
# The digits of a double

The decimal that a double is printed as lies among the numbers that round to the double, and it has
no more than seventeen digits.  The search for it cannot fail: on the grid with seventeen digits the
points are closer together than those numbers reach.

* `length_digits` — how many digits a number has.
* `leadingPower_spec` — the power of ten of the leading digit.
* `Neighbourhood.exists_onGrid` — **seventeen digits are enough.**
* `shortest_spec` — **the shortest decimal is close to the double, and short.**
-/

namespace RewindRelay.Decimal

/-! ## Powers and digits -/

lemma ten_zpow_pos (w : ℤ) : (0 : ℚ) < 10 ^ w := zpow_pos (by norm_num) w

lemma ten_zpow_le {w w' : ℤ} (h : w ≤ w') : (10 : ℚ) ^ w ≤ 10 ^ w' :=
  zpow_le_zpow_right₀ (by norm_num) h

lemma length_digits_pos (n : ℕ) : 0 < (digits n).length :=
  List.length_pos_iff.mpr (digits_ne_nil n)

/-- A number lies between two powers of ten that its digits tell. -/
lemma length_digits {n : ℕ} (h : 0 < n) :
    10 ^ ((digits n).length - 1) ≤ n ∧ n < 10 ^ (digits n).length := by
  induction n using Nat.strongRecOn with
  | _ n ih =>
      rcases Nat.lt_or_ge n 10 with hlt | hge
      · rw [digits_of_lt hlt]
        exact ⟨h, hlt⟩
      · obtain ⟨hlow, hhigh⟩ := ih (n / 10) (by omega) (by omega)
        have hpos := length_digits_pos (n / 10)
        rw [digits_of_le hge, List.length_append, List.length_singleton, Nat.add_sub_cancel]
        constructor
        · have hstep : 10 ^ (digits (n / 10)).length =
              10 * 10 ^ ((digits (n / 10)).length - 1) := by
            rw [← Nat.pow_succ', Nat.succ_eq_add_one, Nat.sub_add_cancel hpos]
          omega
        · rw [Nat.pow_succ]
          omega

/-- The same, of rational numbers. -/
lemma length_digits_zpow {n : ℕ} (h : 0 < n) :
    (10 : ℚ) ^ (((digits n).length : ℤ) - 1) ≤ n ∧ (n : ℚ) < 10 ^ ((digits n).length : ℤ) := by
  obtain ⟨hlow, hhigh⟩ := length_digits h
  have hpos := length_digits_pos n
  have hsub : ((digits n).length : ℤ) - 1 = (((digits n).length - 1 : ℕ) : ℤ) := by omega
  rw [hsub, zpow_natCast, zpow_natCast]
  exact ⟨by exact_mod_cast hlow, by exact_mod_cast hhigh⟩

/-- The digits of a fraction's two parts tell its leading power but for one. -/
lemma length_digits_fraction {num den : ℕ} (hnum : 0 < num) (hden : 0 < den) {x : ℚ}
    (hx : (num : ℚ) = x * den) {guess : ℤ}
    (hguess : guess = (digits num).length - (digits den).length) :
    (10 : ℚ) ^ (guess - 1) ≤ x ∧ x < 10 ^ (guess + 1) := by
  obtain ⟨hnumlow, hnumhigh⟩ := length_digits_zpow hnum
  obtain ⟨hdenlow, hdenhigh⟩ := length_digits_zpow hden
  have hdenq : (0 : ℚ) < den := by exact_mod_cast hden
  constructor
  · have hsplit : (10 : ℚ) ^ (((digits num).length : ℤ) - 1) =
        10 ^ (guess - 1) * 10 ^ ((digits den).length : ℤ) := by
      rw [← zpow_add₀ (by norm_num)]
      congr 1
      omega
    refine le_of_mul_le_mul_right ?_ hdenq
    calc (10 : ℚ) ^ (guess - 1) * den
        ≤ 10 ^ (guess - 1) * 10 ^ ((digits den).length : ℤ) :=
          mul_le_mul_of_nonneg_left hdenhigh.le (ten_zpow_pos _).le
      _ ≤ num := hsplit ▸ hnumlow
      _ = x * den := hx
  · have hsplit : (10 : ℚ) ^ ((digits num).length : ℤ) =
        10 ^ (guess + 1) * 10 ^ (((digits den).length : ℤ) - 1) := by
      rw [← zpow_add₀ (by norm_num)]
      congr 1
      omega
    refine lt_of_mul_lt_mul_right ?_ hdenq.le
    calc x * den
        = num := hx.symm
      _ < 10 ^ (guess + 1) * 10 ^ (((digits den).length : ℤ) - 1) := hsplit ▸ hnumhigh
      _ ≤ 10 ^ (guess + 1) * den :=
          mul_le_mul_of_nonneg_left hdenlow (ten_zpow_pos _).le

/-! ## Grids -/

/-- A fraction on a decimal grid, as a pair of naturals. -/
lemma gridFraction_spec (p : ℕ) (u w : ℤ) :
    0 < (gridFraction p u w).2 ∧
      ((gridFraction p u w).1 : ℚ) * 10 ^ w = p * 2 ^ u * (gridFraction p u w).2 := by
  have htwo : (2 : ℚ) ^ u * 2 ^ (-u).toNat = 2 ^ u.toNat := by
    rw [← zpow_natCast, ← zpow_natCast, ← zpow_add₀ (by norm_num)]
    congr 1
    omega
  have hten : (10 : ℚ) ^ (-w).toNat * 10 ^ w = 10 ^ w.toNat := by
    rw [← zpow_natCast, ← zpow_natCast, ← zpow_add₀ (by norm_num)]
    congr 1
    omega
  refine ⟨Nat.mul_pos (Nat.pow_pos (by decide)) (Nat.pow_pos (by decide)), ?_⟩
  simp only [gridFraction, Nat.pow_eq]
  push_cast
  rw [← htwo, ← hten]
  ring

/-- A number against a point of a decimal grid, in naturals. -/
lemma le_grid_iff {p c : ℕ} {u w : ℤ} :
    (p : ℚ) * 2 ^ u ≤ c * 10 ^ w ↔ (gridFraction p u w).1 ≤ c * (gridFraction p u w).2 := by
  obtain ⟨hdenpos, hfraction⟩ := gridFraction_spec p u w
  have hden : (0 : ℚ) < (gridFraction p u w).2 := by exact_mod_cast hdenpos
  rw [← mul_le_mul_iff_of_pos_right hden, ← hfraction, mul_right_comm,
    mul_le_mul_iff_of_pos_right (ten_zpow_pos w)]
  norm_cast

lemma grid_le_iff {p c : ℕ} {u w : ℤ} :
    (c : ℚ) * 10 ^ w ≤ p * 2 ^ u ↔ c * (gridFraction p u w).2 ≤ (gridFraction p u w).1 := by
  obtain ⟨hdenpos, hfraction⟩ := gridFraction_spec p u w
  have hden : (0 : ℚ) < (gridFraction p u w).2 := by exact_mod_cast hdenpos
  rw [← mul_le_mul_iff_of_pos_right hden, ← hfraction, mul_right_comm,
    mul_le_mul_iff_of_pos_right (ten_zpow_pos w)]
  norm_cast

/-- The power of ten of the leading digit. -/
theorem leadingPower_spec {p : ℕ} (hp : 0 < p) (u : ℤ) :
    (10 : ℚ) ^ leadingPower p u ≤ p * 2 ^ u ∧ (p : ℚ) * 2 ^ u < 10 ^ (leadingPower p u + 1) := by
  obtain ⟨hden, hfraction⟩ := gridFraction_spec p u 0
  rw [zpow_zero, mul_one] at hfraction
  have hnum : 0 < (gridFraction p u 0).1 :=
    Nat.mul_pos (Nat.mul_pos hp (Nat.pow_pos (by decide))) (Nat.pow_pos (by decide))
  obtain ⟨hlow, hhigh⟩ := length_digits_fraction hnum hden hfraction rfl
  set guess : ℤ := (digits (gridFraction p u 0).1).length - (digits (gridFraction p u 0).2).length
    with hguess
  have hlead : leadingPower p u =
      if (gridFraction p u guess).2 ≤ (gridFraction p u guess).1 then guess else guess - 1 := rfl
  have hone : (gridFraction p u guess).2 ≤ (gridFraction p u guess).1 ↔
      (10 : ℚ) ^ guess ≤ p * 2 ^ u := by
    simpa using (grid_le_iff (p := p) (c := 1) (u := u) (w := guess)).symm
  rw [hlead]
  split
  · next hle => exact ⟨hone.mp hle, hhigh⟩
  · next hlt =>
      rw [hone, not_le] at hlt
      exact ⟨hlow, by rwa [sub_add_cancel]⟩

/-- A number between one and ten of these powers has this one as its leading power. -/
lemma leadingPower_eq {p : ℕ} (hp : 0 < p) {u lead : ℤ}
    (hlow : (gridFraction p u lead).2 ≤ (gridFraction p u lead).1)
    (hhigh : (gridFraction p u lead).1 < 10 * (gridFraction p u lead).2) :
    leadingPower p u = lead := by
  obtain ⟨hfrom, hbelow⟩ := leadingPower_spec hp u
  have hmore : (10 : ℚ) ^ lead ≤ p * 2 ^ u := by
    have hone := (grid_le_iff (p := p) (c := 1) (u := u) (w := lead)).mpr (by rwa [one_mul])
    rwa [Nat.cast_one, one_mul] at hone
  have hless : (p : ℚ) * 2 ^ u < 10 ^ (lead + 1) := by
    have hten := lt_of_not_ge (mt grid_le_iff.mp (Nat.not_le_of_lt hhigh))
    rwa [Nat.cast_ofNat, mul_comm 10, ← zpow_add_one₀ (by norm_num)] at hten
  have hle : leadingPower p u < lead + 1 :=
    (zpow_lt_zpow_iff_right₀ (by norm_num)).mp (hfrom.trans_lt hless)
  have hge : lead < leadingPower p u + 1 :=
    (zpow_lt_zpow_iff_right₀ (by norm_num)).mp (hmore.trans_lt hbelow)
  omega

namespace Neighbourhood

variable {n : Neighbourhood} {c : ℕ} {w : ℤ} {tie : Tie}

/-- A grid point of the interval. -/
lemma le_of_holds (h : n.holds c w = true) :
    (n.low : ℚ) * 2 ^ n.unit ≤ c * 10 ^ w ∧ (c : ℚ) * 10 ^ w ≤ n.high * 2 ^ n.unit := by
  have hsame : (gridFraction n.high n.unit w).2 = (gridFraction n.low n.unit w).2 := rfl
  rw [le_grid_iff, grid_le_iff, hsame]
  simp only [holds] at h
  split at h
  · exact of_decide_eq_true h
  · obtain ⟨hlow, hhigh⟩ := of_decide_eq_true h
    exact ⟨hlow.le, hhigh.le⟩

/-- A grid point outside the interval. -/
lemma le_or_le_of_not_holds (h : n.holds c w = false) :
    (c : ℚ) * 10 ^ w ≤ n.low * 2 ^ n.unit ∨ (n.high : ℚ) * 2 ^ n.unit ≤ c * 10 ^ w := by
  have hsame : (gridFraction n.high n.unit w).2 = (gridFraction n.low n.unit w).2 := rfl
  rw [le_grid_iff, grid_le_iff, hsame]
  simp only [holds] at h
  split at h
  · have hnot := of_decide_eq_false h
    omega
  · have hnot := of_decide_eq_false h
    omega

/-- The grid point at or below the value. -/
def below (n : Neighbourhood) (w : ℤ) : ℕ :=
  (gridFraction n.value n.unit w).1 / (gridFraction n.value n.unit w).2

/-- The value lies between two neighbours on the grid. -/
lemma below_spec (n : Neighbourhood) (w : ℤ) :
    (n.below w : ℚ) * 10 ^ w ≤ n.value * 2 ^ n.unit ∧
      (n.value : ℚ) * 2 ^ n.unit < ((n.below w + 1 : ℕ) : ℚ) * 10 ^ w := by
  obtain ⟨hdenpos, -⟩ := gridFraction_spec n.value n.unit w
  rw [← not_le, grid_le_iff, grid_le_iff, Nat.not_le, Nat.mul_comm (n.below w + 1)]
  exact ⟨Nat.div_mul_le_self _ _, Nat.lt_mul_div_succ _ hdenpos⟩

/-- The grid point that is taken is one of the two neighbours, and lies in the interval. -/
lemma onGrid_spec (h : n.onGrid tie w = some c) : n.holds c w = true ∧ c ≤ n.below w + 1 := by
  have hbelow : n.below w =
      (gridFraction n.value n.unit w).1 / (gridFraction n.value n.unit w).2 := rfl
  simp only [onGrid, ← hbelow] at h
  split at h
  · next hdown hup =>
      split_ifs at h <;> cases h
      · exact ⟨hdown, Nat.le_succ _⟩
      · exact ⟨hup, le_rfl⟩
      · exact ⟨hup, le_rfl⟩
      · exact ⟨hdown, Nat.le_succ _⟩
  · next hdown hup =>
      cases h
      exact ⟨hdown, Nat.le_succ _⟩
  · next hdown hup =>
      cases h
      exact ⟨hup, le_rfl⟩
  · cases h

/-- No point is taken only if both neighbours lie outside the interval. -/
lemma not_holds_of_onGrid (h : n.onGrid tie w = none) :
    n.holds (n.below w) w = false ∧ n.holds (n.below w + 1) w = false := by
  have hbelow : n.below w =
      (gridFraction n.value n.unit w).1 / (gridFraction n.value n.unit w).2 := rfl
  simp only [onGrid, ← hbelow] at h
  split at h
  · split_ifs at h
  · cases h
  · cases h
  · next hdown hup => exact ⟨hdown, hup⟩

/-- If no point is taken, the two neighbours enclose the whole interval. -/
lemma width_le_of_onGrid (h : n.onGrid tie w = none) (hlow : n.low ≤ n.value)
    (hhigh : n.value < n.high) : ((n.high : ℚ) - n.low) * 2 ^ n.unit ≤ 10 ^ w := by
  obtain ⟨hdown, hup⟩ := not_holds_of_onGrid h
  obtain ⟨hbelow, habove⟩ := n.below_spec w
  have hunit := two_zpow_pos n.unit
  have hless : (n.low : ℚ) * 2 ^ n.unit ≤ n.value * 2 ^ n.unit :=
    mul_le_mul_of_nonneg_right (by exact_mod_cast hlow) hunit.le
  have hmore : (n.value : ℚ) * 2 ^ n.unit < n.high * 2 ^ n.unit :=
    mul_lt_mul_of_pos_right (by exact_mod_cast hhigh) hunit
  have hdown' := (le_or_le_of_not_holds hdown).resolve_right (not_le.mpr (by linarith))
  have hup' := (le_or_le_of_not_holds hup).resolve_left (not_le.mpr (by linarith))
  push_cast at hup'
  linarith

/-- How far the interval reaches below the value.  Above a power of two it is half as far. -/
lemma value_eq_low_add {m : ℕ} (hm : 0 < m) (e : ℤ) :
    (of m e).value = (of m e).low + 2 ∨ m = 2 ^ 52 ∧ (of m e).value = (of m e).low + 1 := by
  have hvalue : (of m e).value = 4 * m := rfl
  by_cases hnarrow : m = hiddenBit ∧ leastExponent < e
  · have hlow : (of m e).low = 4 * m - 1 := by simp only [of, if_pos hnarrow]
    exact Or.inr ⟨hnarrow.1, by omega⟩
  · have hlow : (of m e).low = 4 * m - 2 := by simp only [of, if_neg hnarrow]
    exact Or.inl (by omega)

/-- **Seventeen digits are enough**: the points of the grid are closer together than the interval
is wide. -/
theorem exists_onGrid {m : ℕ} {e : ℤ} (hc : Canonical m e) (tie : Tie) :
    ∃ c, (Neighbourhood.of m e).onGrid tie
      (leadingPower (Neighbourhood.of m e).value (Neighbourhood.of m e).unit - 16) = some c := by
  have hpos := hc.pos
  have hlow := value_eq_low_add hpos e
  have hhigh : (of m e).high = (of m e).value + 2 := rfl
  have hvalue : (of m e).value = 4 * m := rfl
  set n := Neighbourhood.of m e
  set w := leadingPower n.value n.unit - 16 with hw
  cases hgrid : n.onGrid tie w with
  | some c => exact ⟨c, rfl⟩
  | none =>
      exfalso
      have hwide := width_le_of_onGrid hgrid (by omega) (by omega)
      obtain ⟨hlead, -⟩ := leadingPower_spec (p := n.value) (by omega) n.unit
      have hstep : (10 : ℚ) ^ w * 10 ^ 16 = 10 ^ leadingPower n.value n.unit := by
        rw [hw, zpow_sub₀ (by norm_num)]
        exact div_mul_cancel₀ _ (by norm_num)
      have hall : ((n.high : ℚ) - n.low) * 10 ^ 16 * 2 ^ n.unit ≤ n.value * 2 ^ n.unit := by
        calc ((n.high : ℚ) - n.low) * 10 ^ 16 * 2 ^ n.unit
            = ((n.high : ℚ) - n.low) * 2 ^ n.unit * 10 ^ 16 := by ring
          _ ≤ 10 ^ w * 10 ^ 16 := mul_le_mul_of_nonneg_right hwide (by norm_num)
          _ = 10 ^ leadingPower n.value n.unit := hstep
          _ ≤ n.value * 2 ^ n.unit := hlead
      have hcount := le_of_mul_le_mul_right hall (two_zpow_pos n.unit)
      have hcount' : (n.high - n.low) * 10 ^ 16 ≤ n.value := by
        have hle : n.low ≤ n.high := by omega
        rw [← Nat.cast_sub hle] at hcount
        exact_mod_cast hcount
      have hlt := hc.lt
      omega

end Neighbourhood

/-! ## The shortest decimal -/

/-- Trailing zeros go into the power of ten. -/
lemma dropZeros_spec (c : ℕ) (w : ℤ) :
    ((dropZeros c w).1 : ℚ) * 10 ^ (dropZeros c w).2 = c * 10 ^ w ∧ (dropZeros c w).1 ≤ c ∧
      ¬ (0 < (dropZeros c w).1 ∧ (dropZeros c w).1 % 10 = 0) := by
  fun_induction dropZeros c w with
  | case1 c w h ih =>
      obtain ⟨hsame, hle, hdone⟩ := ih
      refine ⟨?_, by omega, hdone⟩
      have hc : (c : ℚ) = 10 * (c / 10 : ℕ) := by
        exact_mod_cast (show c = 10 * (c / 10) by omega)
      rw [hsame, zpow_add₀ (by norm_num), hc]
      push_cast
      ring
  | case2 c w h => exact ⟨rfl, le_rfl, h⟩

/-- Some grid has a point in the interval, and the first one that does is taken. -/
lemma exists_shortest {m : ℕ} {e : ℤ} (hc : Canonical m e) (tie : Tie) :
    ∃ (extra c : ℕ), extra < 17 ∧
      (Neighbourhood.of m e).onGrid tie (leadingPower (4 * m) (e - 2) - extra) = some c ∧
      shortest tie m e = dropZeros c (leadingPower (4 * m) (e - 2) - extra) := by
  set n := Neighbourhood.of m e with hn
  set lead := leadingPower (4 * m) (e - 2) with hlead
  have hsome : ((List.range 17).findSome? fun (extra : ℕ) =>
      (n.onGrid tie (lead - extra)).map fun c => (c, lead - (extra : ℤ))).isSome = true := by
    obtain ⟨c, hgrid⟩ := Neighbourhood.exists_onGrid hc tie
    rw [List.findSome?_isSome_iff]
    refine ⟨16, by decide, ?_⟩
    rw [Option.isSome_map]
    exact Option.isSome_iff_exists.mpr ⟨c, hgrid⟩
  obtain ⟨pair, hpair⟩ := Option.isSome_iff_exists.mp hsome
  obtain ⟨extra, hmem, hfound⟩ := List.exists_of_findSome?_eq_some hpair
  obtain ⟨c, hgrid, rfl⟩ := Option.map_eq_some_iff.mp hfound
  refine ⟨extra, c, List.mem_range.mp hmem, hgrid, ?_⟩
  have hshortest : shortest tie m e =
      dropZeros (((List.range 17).findSome? fun (extra : ℕ) =>
        (n.onGrid tie (lead - extra)).map fun c => (c, lead - (extra : ℤ))).getD (m, e)).1
        (((List.range 17).findSome? fun (extra : ℕ) =>
        (n.onGrid tie (lead - extra)).map fun c => (c, lead - (extra : ℤ))).getD (m, e)).2 := rfl
  rw [hshortest, hpair, Option.getD_some]

/-- On a grid with so many digits after the first one, a number has no more digits. -/
lemma below_lt {m : ℕ} {e : ℤ} (hm : 0 < m) (extra : ℕ) :
    (Neighbourhood.of m e).below (leadingPower (4 * m) (e - 2) - extra) < 10 ^ (extra + 1) := by
  set n := Neighbourhood.of m e
  set lead := leadingPower (4 * m) (e - 2)
  obtain ⟨hdown, -⟩ := n.below_spec (lead - extra)
  obtain ⟨-, hup⟩ := leadingPower_spec (p := 4 * m) (by omega) (e - 2)
  have hstep : (10 : ℚ) ^ (lead + 1) = 10 ^ (extra + 1) * 10 ^ (lead - extra) := by
    rw [← zpow_natCast, ← zpow_add₀ (by norm_num)]
    congr 1
    push_cast
    omega
  have hlt : (n.below (lead - extra) : ℚ) * 10 ^ (lead - extra) <
      10 ^ (extra + 1) * 10 ^ (lead - extra) := hstep ▸ hdown.trans_lt hup
  have hcount : (n.below (lead - extra) : ℚ) < 10 ^ (extra + 1) :=
    lt_of_mul_lt_mul_right hlt (ten_zpow_pos _).le
  exact_mod_cast hcount

/-- **The shortest decimal of a double is close to it, and short**: it is half a unit in the last
place away at most, and has at most seventeen digits. -/
theorem shortest_spec {m : ℕ} {e : ℤ} (hc : Canonical m e) (tie : Tie) {c : ℕ} {w : ℤ}
    (h : shortest tie m e = (c, w)) :
    0 < c ∧ c < 10 ^ 17 ∧ ((m : ℚ) - 1 / 2) * 2 ^ e ≤ c * 10 ^ w ∧
      (c : ℚ) * 10 ^ w ≤ (m + 1 / 2) * 2 ^ e := by
  have hpos : 0 < c := by
    have hfirst := shortest_pos tie hc.pos e
    rwa [h] at hfirst
  obtain ⟨extra, c₀, hextra, hgrid, hshortest⟩ := exists_shortest hc tie
  set n := Neighbourhood.of m e with hn
  set lead := leadingPower (4 * m) (e - 2) with hlead
  obtain ⟨hholds, hnear⟩ := Neighbourhood.onGrid_spec hgrid
  obtain ⟨hlow, hhigh⟩ := Neighbourhood.le_of_holds hholds
  obtain ⟨hsame, hle, hdone⟩ := dropZeros_spec c₀ (lead - extra)
  rw [← hshortest, h] at hsame hle hdone
  have hbelow : n.below (lead - extra) < 10 ^ 17 :=
    (below_lt hc.pos extra).trans_le (Nat.pow_le_pow_right (by decide) (by omega))
  have hunit : (2 : ℚ) ^ e = 4 * 2 ^ n.unit := by
    have hsplit : e = 2 + n.unit := by
      have hdef : n.unit = e - 2 := rfl
      omega
    rw [hsplit, zpow_add₀ (by norm_num), hn]
    norm_num
  have hpow := two_zpow_pos n.unit
  refine ⟨hpos, ?_, ?_, ?_⟩
  · -- the one number of eighteen digits that could be taken ends in zeros
    have hbound : c ≤ 10 ^ 17 := hle.trans (hnear.trans hbelow)
    refine Nat.lt_of_le_of_ne hbound fun hfull => hdone ⟨hpos, ?_⟩
    exact Nat.mod_eq_zero_of_dvd (hfull ▸ Dvd.intro_left (10 ^ 16) rfl)
  · have hlowval : 4 * m ≤ n.low + 2 := by
      rw [hn, Neighbourhood.of]
      dsimp only
      split <;> omega
    have hlowq : (4 * m : ℚ) ≤ n.low + 2 := by exact_mod_cast hlowval
    have hmul := mul_le_mul_of_nonneg_right hlowq hpow.le
    rw [hsame, hunit]
    linarith
  · have hhighval : n.high = 4 * m + 2 := rfl
    have hhighq : (n.high : ℚ) = 4 * m + 2 := by exact_mod_cast hhighval
    rw [hhighq] at hhigh
    rw [hsame, hunit]
    linarith

end RewindRelay.Decimal
