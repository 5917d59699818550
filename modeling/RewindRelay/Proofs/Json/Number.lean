import RewindRelay.Json.Number
import RewindRelay.Json.Printer
import RewindRelay.Json.Reader
import RewindRelay.Proofs.Decimal.Numeral
/-!
# Numbers read back

The reader takes in a proper numeral digit by digit and is left with the same numeral.  An integer
of 64 bits also comes back as itself; a double may not, because the reader rounds twice.

* `run_numeralBytes` — **the reader takes in what was written.**
* `int64?_ofInt` — **an integer reads back.**
-/

namespace RewindRelay.Json

open Decimal (Digit Numeral Exponent ExponentSign digits ofDigits ofDigitsFrom maxCount digitChar)

/-! ## Digits -/

/-- Digits as they are written. -/
def digitBytes (ds : List Digit) : Bytes := ds.map fun d => ascii (digitChar d)

lemma digitBytes_cons (d : Digit) (ds : List Digit) :
    digitBytes (d :: ds) = ascii (digitChar d) :: digitBytes ds := rfl

lemma digitOf?_digitChar (d : Digit) : digitOf? (ascii (digitChar d)) = some d := by
  revert d
  decide

/-- A digit begins a number, with or without a sign before it. -/
lemma startValue_digit (d : Digit) (frames : List Frame) :
    startValue frames (ascii (digitChar d)) =
      some ⟨.number { part := if d = .zero then .zero else .whole, whole := [d] }, frames⟩ := by
  fin_cases d <;> rfl

lemma isBlank_digit (d : Digit) : isBlank (ascii (digitChar d)) = false := by
  revert d
  decide

lemma run_number_cons {n n' : OpenNumber} {b : UInt8} (h : n.extend b = some n') (rest : Bytes)
    (frames : List Frame) :
    run ⟨.number n, frames⟩ (b :: rest) = run ⟨.number n', frames⟩ rest := by
  simp only [run, step, h]

/-- A run of digits that all go into the same part of a number. -/
lemma run_digits (number : List Digit → OpenNumber)
    (h : ∀ read d, (number read).extend (ascii (digitChar d)) = some (number (d :: read)))
    (ds read : List Digit) (frames : List Frame) :
    run ⟨.number (number read), frames⟩ (digitBytes ds) =
      some ⟨.number (number (ds.reverse ++ read)), frames⟩ := by
  induction ds generalizing read with
  | nil => rfl
  | cons d ds ih =>
      rw [digitBytes_cons, run_number_cons (h read d), ih]
      simp

/-! ## The parts of a number -/

/-- The first digit, after a sign or without one. -/
lemma run_firstDigit (negative : Bool) (d : Digit) (rest : Bytes) (frames : List Frame) :
    run ⟨.start, frames⟩ ((if negative then [ascii '-'] else []) ++ ascii (digitChar d) :: rest) =
      run ⟨.number { part := if d = .zero then .zero else .whole, negative, whole := [d] }, frames⟩
        rest := by
  cases negative with
  | false =>
      have hstep : step ⟨.start, frames⟩ (ascii (digitChar d)) =
          startValue frames (ascii (digitChar d)) := by
        simp only [step, isBlank_digit, Bool.false_eq_true, if_false]
      simp only [Bool.false_eq_true, if_false, List.nil_append, run, hstep, startValue_digit]
  | true =>
      have hminus : ∀ bytes, run ⟨.start, frames⟩ (ascii '-' :: bytes) =
          run ⟨.number { part := .minus, negative := true }, frames⟩ bytes := fun _ => rfl
      have hext : OpenNumber.extend { part := .minus, negative := true } (ascii (digitChar d)) =
          some { part := if d = .zero then .zero else .whole, negative := true, whole := [d] } := by
        simp only [OpenNumber.extend, digitOf?_digitChar]
      simp only [if_true, List.singleton_append, hminus]
      exact run_number_cons hext rest frames

/-- The sign and the digits before the point. -/
lemma run_whole {n : Numeral} (h : n.Proper) (frames : List Frame) :
    ∃ part, (part = .zero ∨ part = .whole) ∧
      run ⟨.start, frames⟩ ((if n.negative then [ascii '-'] else []) ++ digitBytes n.whole) =
        some ⟨.number { part, negative := n.negative, whole := n.whole.reverse }, frames⟩ := by
  rcases h.whole with hw | ⟨d, rest, hw, hd⟩
  · refine ⟨.zero, Or.inl rfl, ?_⟩
    rw [hw]
    exact run_firstDigit n.negative .zero [] frames
  · refine ⟨.whole, Or.inr rfl, ?_⟩
    have hmore := run_digits
      (fun read => { part := .whole, negative := n.negative, whole := read })
      (fun read d => by simp only [OpenNumber.extend, digitOf?_digitChar]) rest [d] frames
    rw [hw, digitBytes_cons, run_firstDigit, if_neg hd, hmore, List.reverse_cons]

/-- The point and the digits after it. -/
lemma run_fraction {n : OpenNumber} (hpart : n.part = .zero ∨ n.part = .whole)
    (hn : n.fraction = []) (ds : List Digit) (frames : List Frame) :
    ∃ part, (part = .zero ∨ part = .whole ∨ part = .fraction) ∧
      run ⟨.number n, frames⟩ (if ds.isEmpty then [] else ascii '.' :: digitBytes ds) =
        some ⟨.number { n with part, fraction := ds.reverse }, frames⟩ := by
  cases ds with
  | nil =>
      refine ⟨n.part, hpart.imp id Or.inl, ?_⟩
      have hsame : { n with part := n.part, fraction := List.reverse [] } = n := by
        rw [List.reverse_nil, ← hn]
      rw [hsame]
      rfl
  | cons d rest =>
      refine ⟨.fraction, Or.inr (Or.inr rfl), ?_⟩
      have hpoint : n.extend (ascii '.') = some { n with part := .point } := by
        rcases hpart with h | h <;> simp only [OpenNumber.extend, h] <;> rfl
      have hfirst : OpenNumber.extend { n with part := .point } (ascii (digitChar d)) =
          some { n with part := .fraction, fraction := [d] } := by
        simp only [OpenNumber.extend, digitOf?_digitChar, hn]
      have hmore := run_digits (fun read => { n with part := .fraction, fraction := read })
        (fun read d => by simp only [OpenNumber.extend, digitOf?_digitChar]) rest [d] frames
      rw [List.isEmpty_cons, if_neg Bool.false_ne_true, run_number_cons hpoint, digitBytes_cons,
        run_number_cons hfirst, hmore, List.reverse_cons]

/-- The digits of the power of ten. -/
lemma run_powerDigits (n : OpenNumber) (hpart : n.part = .power ∨ n.part = .powerSign)
    (hn : n.power = []) {ds : List Digit} (hds : ds ≠ []) (frames : List Frame) :
    run ⟨.number n, frames⟩ (digitBytes ds) =
      some ⟨.number { n with part := .powerDigits, power := ds.reverse }, frames⟩ := by
  obtain ⟨d, rest, rfl⟩ := List.exists_cons_of_ne_nil hds
  have hfirst : n.extend (ascii (digitChar d)) =
      some { n with part := .powerDigits, power := [d] } := by
    rcases hpart with h | h <;> simp only [OpenNumber.extend, h, digitOf?_digitChar, hn]
  have hmore := run_digits (fun read => { n with part := .powerDigits, power := read })
    (fun read d => by simp only [OpenNumber.extend, digitOf?_digitChar]) rest [d] frames
  rw [digitBytes_cons, run_number_cons hfirst, hmore, List.reverse_cons]

/-- The power of ten, with its sign. -/
lemma run_exponent {n : OpenNumber}
    (hpart : n.part = .zero ∨ n.part = .whole ∨ n.part = .fraction) (hsign : n.sign = .unsigned)
    (hn : n.power = []) {e : Exponent} (he : e.digits ≠ []) (frames : List Frame) :
    run ⟨.number n, frames⟩
        (ascii 'e' :: (Numeral.signChars e.sign).map ascii ++ digitBytes e.digits) =
      some ⟨.number { n with
        part := .powerDigits, sign := e.sign, power := e.digits.reverse }, frames⟩ := by
  have hpower : n.extend (ascii 'e') = some { n with part := .power } := by
    rcases hpart with h | h | h <;> simp only [OpenNumber.extend, h] <;> rfl
  rw [List.cons_append, run_number_cons hpower]
  cases e.sign with
  | unsigned =>
      have hdigits := run_powerDigits { n with part := .power, sign := .unsigned } (Or.inl rfl) hn
        he frames
      have hsame : { n with part := .power } =
          { n with part := .power, sign := ExponentSign.unsigned } := by rw [hsign]
      rw [hsame]
      exact hdigits
  | plus =>
      have hplus : OpenNumber.extend { n with part := .power } (ascii '+') =
          some { n with part := .powerSign, sign := .plus } := rfl
      have hdigits := run_powerDigits { n with part := .powerSign, sign := .plus } (Or.inr rfl) hn
        he frames
      exact (run_number_cons hplus _ frames).trans hdigits
  | minus =>
      have hminus : OpenNumber.extend { n with part := .power } (ascii '-') =
          some { n with part := .powerSign, sign := .minus } := rfl
      have hdigits := run_powerDigits { n with part := .powerSign, sign := .minus } (Or.inr rfl) hn
        he frames
      exact (run_number_cons hminus _ frames).trans hdigits

/-! ## Whole numbers -/

lemma numeralBytes_eq (n : Numeral) :
    numeralBytes n = ((if n.negative then [ascii '-'] else []) ++ digitBytes n.whole) ++
      ((if n.fraction.isEmpty then [] else ascii '.' :: digitBytes n.fraction) ++
        match n.exponent with
        | none => []
        | some e => ascii 'e' :: (Numeral.signChars e.sign).map ascii ++ digitBytes e.digits) := by
  have hdigits : ∀ ds : List Digit, (ds.map digitChar).map ascii = digitBytes ds := fun ds => by
    rw [List.map_map]
    rfl
  simp only [numeralBytes, Numeral.chars, List.map_append, hdigits, List.append_assoc]
  congr 1
  · cases n.negative <;> rfl
  · congr 2
    · cases n.fraction with
      | nil => rfl
      | cons d rest => exact congrArg _ (hdigits (d :: rest))
    · cases n.exponent with
      | none => rfl
      | some e => simp [hdigits]

/-- **A proper numeral is taken in.**  The reader cannot know that the number is over, but it may
be. -/
theorem run_numeralBytes {n : Numeral} (h : n.Proper) (frames : List Frame) :
    ∃ o : OpenNumber, run ⟨.start, frames⟩ (numeralBytes n) = some ⟨.number o, frames⟩ ∧
      o.part.complete = true ∧ o.numeral = n := by
  obtain ⟨part, hpart, hwhole⟩ := run_whole h frames
  obtain ⟨part', hpart', hfraction⟩ := run_fraction
    (n := { part, negative := n.negative, whole := n.whole.reverse }) hpart rfl n.fraction frames
  rw [numeralBytes_eq, run_append, hwhole, Option.bind_some, run_append, hfraction,
    Option.bind_some]
  cases hexp : n.exponent with
  | none =>
      refine ⟨_, rfl, ?_, ?_⟩
      · rcases hpart' with rfl | rfl | rfl <;> rfl
      · simp [OpenNumber.numeral, ← hexp]
  | some e =>
      have he := h.exponent e hexp
      refine ⟨_, run_exponent hpart' rfl rfl he frames, rfl, ?_⟩
      simp [OpenNumber.numeral, he, ← hexp]

/-! ## Integers -/

lemma le_ofDigitsFrom (ds : List Digit) (value : ℕ) : value ≤ ofDigitsFrom value ds := by
  induction ds generalizing value with
  | nil => exact Nat.le_refl _
  | cons d ds ih =>
      have hnext := ih (10 * value + d.val)
      simp only [ofDigitsFrom, List.foldl_cons] at hnext ⊢
      omega

/-- Digits that fit 64 bits are all collected. -/
lemma collect_eq {ds : List Digit} {value : ℕ} (h : ofDigitsFrom value ds ≤ maxCount) :
    collect value ds = (ofDigitsFrom value ds, 0) := by
  induction ds generalizing value with
  | nil => rfl
  | cons d ds ih =>
      have hnext : ofDigitsFrom (10 * value + d.val) ds ≤ maxCount := h
      have hfits := Nat.le_trans (le_ofDigitsFrom ds _) hnext
      rw [collect, if_pos hfits, ih hnext]
      rfl

lemma plain?_ofInt {i : ℤ} (h : i.natAbs ≤ maxCount) :
    plain? (Numeral.ofInt i) = some i.natAbs := by
  have hvalue : ofDigitsFrom 0 (digits i.natAbs) = i.natAbs := Decimal.ofDigits_digits _
  have hcollect : collect 0 (digits i.natAbs) = (i.natAbs, 0) := by
    rw [collect_eq (by rw [hvalue]; exact h), hvalue]
  simp [plain?, Numeral.ofInt, hcollect]

/-- **An integer of 64 bits reads back.** -/
theorem int64?_ofInt (ts : Int64) : int64? (Numeral.ofInt ts.toInt) = some ts := by
  have hlow := ts.le_toInt
  have hhigh := ts.toInt_lt
  have hplain : plain? (Numeral.ofInt ts.toInt) = some ts.toInt.natAbs :=
    plain?_ofInt (by simp only [maxCount, UInt64.size]; omega)
  have hhalf : halfRange = 2 ^ 63 := rfl
  rw [int64?, hplain, Option.bind_some]
  by_cases hneg : ts.toInt < 0
  · have hsign : (Numeral.ofInt ts.toInt).negative = true := by simp [Numeral.ofInt, hneg]
    have hvalue : -(ts.toInt.natAbs : ℤ) = ts.toInt := by omega
    rw [if_pos hsign, if_pos (by omega), hvalue, Int64.ofInt_toInt]
  · have hsign : ¬ (Numeral.ofInt ts.toInt).negative = true := by simp [Numeral.ofInt, hneg]
    have hvalue : (ts.toInt.natAbs : ℤ) = ts.toInt := by omega
    rw [if_neg hsign, if_pos (by omega), ← Int64.ofInt_eq_ofNat, hvalue, Int64.ofInt_toInt]

end RewindRelay.Json
