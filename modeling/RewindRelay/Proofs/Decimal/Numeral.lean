import Mathlib
import RewindRelay.Decimal.Layout
/-!
# Numerals that are written

A JSON number has no empty part and no leading zero.  Integers and finite doubles are written as
such numerals.

* `Numeral.Proper` — the numerals that JSON allows.
* `Numeral.proper_ofInt`, `Layout.proper_finite` — **what is written is proper.**
* `Layout.isSome_numeral?` — a double has a numeral when it is finite.
-/

namespace RewindRelay.Decimal

/-! ## Digits -/

lemma digits_of_lt {n : ℕ} (h : n < 10) : digits n = [⟨n, h⟩] := by
  rw [digits, dif_pos h]

lemma digits_of_le {n : ℕ} (h : 10 ≤ n) :
    digits n = digits (n / 10) ++ [⟨n % 10, Nat.mod_lt n (by decide)⟩] := by
  rw [digits, dif_neg (Nat.not_lt.mpr h)]

lemma digits_ne_nil (n : ℕ) : digits n ≠ [] := by
  rcases Nat.lt_or_ge n 10 with h | h
  · simp [digits_of_lt h]
  · simp [digits_of_le h]

/-- The first digit of a positive number is not zero. -/
lemma exists_digits_eq_cons {n : ℕ} (h : 0 < n) :
    ∃ d rest, digits n = d :: rest ∧ d ≠ Digit.zero := by
  induction n using Nat.strongRecOn with
  | _ n ih =>
      rcases Nat.lt_or_ge n 10 with hlt | hge
      · refine ⟨⟨n, hlt⟩, [], digits_of_lt hlt, fun hz => ?_⟩
        have hval : n = 0 := congrArg Fin.val hz
        omega
      · obtain ⟨d, rest, hd, hne⟩ := ih (n / 10) (by omega) (by omega)
        refine ⟨d, rest ++ [⟨n % 10, Nat.mod_lt n (by decide)⟩], ?_, hne⟩
        rw [digits_of_le hge, hd, List.cons_append]

/-! ## Proper numerals -/

/-- No part that is written is empty, and there is no leading zero. -/
structure Numeral.Proper (n : Numeral) : Prop where
  whole : n.whole = [Digit.zero] ∨ ∃ d rest, n.whole = d :: rest ∧ d ≠ Digit.zero
  exponent : ∀ e, n.exponent = some e → e.digits ≠ []

lemma Numeral.proper_ofInt (i : ℤ) : (Numeral.ofInt i).Proper := by
  refine ⟨?_, fun e he => by cases he⟩
  rcases Nat.eq_zero_or_pos i.natAbs with hz | hpos
  · exact Or.inl (by simp only [ofInt, hz]; exact digits_of_lt (by decide))
  · exact Or.inr (exists_digits_eq_cons hpos)

/-! ## Shortest decimals -/

/-- A positive number has no grid point at zero in its interval. -/
lemma Neighbourhood.holds_zero {significand : ℕ} (h : 0 < significand) (exponent power : ℤ) :
    (Neighbourhood.of significand exponent).holds 0 power = false := by
  have hlow : 0 < (Neighbourhood.of significand exponent).low := by
    simp only [Neighbourhood.of]
    split <;> omega
  have hnum : 0 < (gridFraction (Neighbourhood.of significand exponent).low
      (Neighbourhood.of significand exponent).unit power).1 :=
    Nat.mul_pos (Nat.mul_pos hlow (Nat.pow_pos (by decide))) (Nat.pow_pos (by decide))
  simp only [Neighbourhood.holds, Nat.zero_mul]
  split <;> simp only [decide_eq_false_iff_not] <;> omega

lemma Neighbourhood.onGrid_pos {significand : ℕ} (h : 0 < significand) (exponent : ℤ) (tie : Tie)
    (power : ℤ) {c : ℕ} (hc : (Neighbourhood.of significand exponent).onGrid tie power = some c) :
    0 < c := by
  rcases Nat.eq_zero_or_pos c with rfl | hpos
  · simp only [Neighbourhood.onGrid] at hc
    split at hc
    · next hbelow _ =>
        -- the lower neighbour is in the interval, so it is not zero
        have hne : (gridFraction (Neighbourhood.of significand exponent).value
            (Neighbourhood.of significand exponent).unit power).1 /
            (gridFraction (Neighbourhood.of significand exponent).value
              (Neighbourhood.of significand exponent).unit power).2 ≠ 0 := by
          intro hz
          rw [hz, holds_zero h] at hbelow
          cases hbelow
        split_ifs at hc <;> simp only [Option.some.injEq] at hc
        · exact absurd hc hne
        · exact absurd hc (Nat.succ_ne_zero _)
        · exact absurd hc (Nat.succ_ne_zero _)
        · exact absurd hc hne
    · next hbelow _ =>
        simp only [Option.some.injEq] at hc
        rw [hc, holds_zero h] at hbelow
        cases hbelow
    · simp at hc
    · cases hc
  · exact hpos

lemma dropZeros_pos {coefficient : ℕ} (h : 0 < coefficient) (power : ℤ) :
    0 < (dropZeros coefficient power).1 := by
  fun_induction dropZeros coefficient power with
  | case1 coefficient power hc ih => exact ih (by omega)
  | case2 coefficient power hc => exact h

/-- The shortest decimal of a positive double is positive. -/
lemma shortest_pos (tie : Tie) {significand : ℕ} (h : 0 < significand) (exponent : ℤ) :
    0 < (shortest tie significand exponent).1 := by
  simp only [shortest]
  refine dropZeros_pos ?_ _
  generalize hfound : List.findSome? _ (List.range 17) = found
  cases found with
  | none => exact h
  | some pair =>
      obtain ⟨extra, -, hextra⟩ := List.exists_of_findSome?_eq_some hfound
      obtain ⟨c, hc, rfl⟩ := Option.map_eq_some_iff.mp hextra
      exact Neighbourhood.onGrid_pos h exponent tie _ hc

/-! ## Doubles -/

/-- A positive coefficient makes a proper numeral. -/
lemma Layout.proper_numeral (l : Layout) (negative : Bool) {coefficient : ℕ}
    (h : 0 < coefficient) (power : ℤ) : (l.numeral negative coefficient power).Proper := by
  obtain ⟨d, rest, hd, hne⟩ := exists_digits_eq_cons h
  simp only [Layout.numeral]
  split
  · split
    · exact ⟨Or.inl rfl, fun e he => by cases he⟩
    · refine ⟨Or.inr ?_, fun e he => by cases he⟩
      simp only [hd, List.take_succ_cons, List.cons_append]
      exact ⟨d, _, rfl, hne⟩
  · refine ⟨Or.inr ⟨d, [], by simp [hd], hne⟩, fun e he => ?_⟩
    cases he
    exact digits_ne_nil _

/-- **A finite double is written as a proper numeral.** -/
theorem Layout.proper_finite (l : Layout) (negative : Bool) (significand : ℕ) (exponent : ℤ) :
    (l.finite negative significand exponent).Proper := by
  simp only [Layout.finite]
  split
  · exact ⟨Or.inl rfl, fun e he => by cases he⟩
  · exact l.proper_numeral negative (shortest_pos l.tie (by omega) exponent) _

/-! ## Finite doubles -/

open Float.Model Float.Model.UnpackedFloat in
/-- The exponent field of a double. -/
lemma toNat_unpackExponent (b : BitVec 64) :
    (unpackExponent b : BitVec Format.binary64.exponentBits).toNat =
      b.toNat / hiddenBit % 2048 := by
  simp only [UnpackedFloat.unpackExponent, BitVec.toNat_cast, BitVec.extractLsb_toNat,
    Nat.shiftRight_eq_div_pow]
  rfl

open Float.Model Float.Model.UnpackedFloat in
/-- A double is finite when its exponent field is not full. -/
lemma isFinite_iff (x : Float) :
    x.isFinite = true ↔ x.toBits.toNat / hiddenBit % 2048 ≠ 2047 := by
  have hfull : (unpackExponent x.toModel.toBits.toBitVec : BitVec Format.binary64.exponentBits) =
      -1#11 ↔ x.toBits.toNat / hiddenBit % 2048 = 2047 := by
    rw [← BitVec.toNat_inj, toNat_unpackExponent]
    rfl
  rw [Float.isFinite, Float.Model.isFinite, Float.Model.unpack, UnpackedFloat.unpack]
  simp only [hfull]
  split
  · next h =>
      split <;> simp [UnpackedFloat.isFinite, h]
  · next h =>
      split
      · split <;> simp [UnpackedFloat.isFinite, h]
      · simp [UnpackedFloat.isFinite, h]

/-- **A double has a numeral when it is finite.** -/
lemma Layout.isSome_numeral? (l : Layout) (x : Float) : (l.numeral? x).isSome = x.isFinite := by
  rw [Bool.eq_iff_iff, isFinite_iff, Layout.numeral?, Binary.ofFloat]
  split_ifs with hfull hzero <;> simp [hfull]

end RewindRelay.Decimal
