import RewindRelay.Proofs.Decimal.Rounding
/-!
# Positive doubles and their values

A positive double is its significand times a power of two, and products, quotients and conversions
are the exact ones, rounded.  The value of a double is a rational number here, so that the laws of
arithmetic hold of it.

* `unpack_pack` — a double is stored and taken out again.
* `HasValue` — a positive double, with its value.
* `HasValue.mul`, `HasValue.div`, `hasValue_ofCount`, `hasValue_ofScientific` — **results are
  nearly exact**, within half a unit in the last place.
* `HasValue.isFinite`, `HasValue.pos` — a positive double is finite and positive.
* `ofFloat_of_isFinite` — a finite double, taken apart.
-/

namespace RewindRelay.Decimal

open Float.Model Float.Model.UnpackedFloat

/-! ## Storing doubles -/

lemma unpackSign_packComponents {spec : Format} (s : Sign) (e : BitVec spec.exponentBits)
    (m : BitVec spec.mantissaBitsWithoutImplicit) :
    unpackSign (packComponents spec s e m) = s.toBitVec := by
  ext i hi
  have hzero : i = 0 := by omega
  subst hzero
  simp [unpackSign, packComponents, BitVec.getLsbD_append, BitVec.getElem_append]

lemma ofBitVec_toBitVec (s : Sign) : Sign.ofBitVec s.toBitVec = s := by
  cases s <;> rfl

/-- The hidden bit before a fraction. -/
lemma toNat_hidden_append (f : BitVec 52) : (1#1 ++ f).toNat = 2 ^ 52 + f.toNat := by
  have hhidden : (1#1 : BitVec 1).toNat <<< 52 = 2 ^ 52 := rfl
  rw [BitVec.toNat_append, ← Nat.shiftLeft_add_eq_or_of_lt f.isLt, hhidden]

lemma toNat_bias : (Format.binary64.exponentBias : ℤ) +
    (Format.binary64.mantissaBitsWithoutImplicit : ℤ) = 1075 := rfl

lemma unpack_normal (s : Sign) {m : ℕ} (hlow : 2 ^ 52 ≤ m) (hhigh : m < 2 ^ 53) {e : ℤ}
    (hleast : -1074 ≤ e) (hgreatest : e ≤ 971) (h : 0 < m) :
    unpack Format.binary64 (packComponents Format.binary64 s
      (BitVec.ofNat 11 (e + 1075).toNat) (BitVec.ofNat 52 m)) = .finite s m e h := by
  have hexp : (BitVec.ofNat 11 (e + 1075).toNat).toNat = (e + 1075).toNat := by
    rw [BitVec.toNat_ofNat]
    exact Nat.mod_eq_of_lt (by omega)
  have hfull : BitVec.ofNat 11 (e + 1075).toNat ≠ -1#11 := by
    intro heq
    have hones : (-1#11 : BitVec 11).toNat = 2047 := rfl
    rw [heq, hones] at hexp
    omega
  have hzero : BitVec.ofNat 11 (e + 1075).toNat ≠ 0#11 := by
    intro heq
    have hnone : (0#11 : BitVec 11).toNat = 0 := rfl
    rw [heq, hnone] at hexp
    omega
  have hm : (1#1 ++ BitVec.ofNat 52 m).toNat = m := by
    rw [toNat_hidden_append, BitVec.toNat_ofNat]
    omega
  have he : ((BitVec.ofNat 11 (e + 1075).toNat).toNat : ℤ) -
      (Format.binary64.exponentBias + Format.binary64.mantissaBitsWithoutImplicit) = e := by
    rw [hexp, toNat_bias]
    omega
  rw [UnpackedFloat.unpack]
  simp only [unpackExponent_packComponents, unpackMantissa_packComponents,
    unpackSign_packComponents, ofBitVec_toBitVec, if_neg hfull, if_neg hzero,
    UnpackedFloat.finite.injEq]
  exact ⟨trivial, hm, he⟩

lemma unpack_subnormal (s : Sign) {m : ℕ} (hhigh : m < 2 ^ 52) (h : 0 < m) :
    unpack Format.binary64 (packComponents Format.binary64 s 0#11 (BitVec.ofNat 52 m)) =
      .finite s m (-1074) h := by
  have hm : (BitVec.ofNat 52 m).toNat = m := by
    rw [BitVec.toNat_ofNat]
    exact Nat.mod_eq_of_lt hhigh
  have hne : BitVec.ofNat 52 m ≠ 0#52 := by
    intro heq
    have hnone : (0#52 : BitVec 52).toNat = 0 := rfl
    rw [heq, hnone] at hm
    omega
  have hfull : (0#11 : BitVec 11) ≠ -1#11 := by decide
  rw [UnpackedFloat.unpack]
  simp only [unpackExponent_packComponents, unpackMantissa_packComponents,
    unpackSign_packComponents, ofBitVec_toBitVec, if_neg hfull, if_true, dif_neg hne,
    UnpackedFloat.finite.injEq]
  exact ⟨trivial, hm, rfl⟩

/-- **A double is stored and taken out again.** -/
theorem unpack_pack (s : Sign) {m : ℕ} {e : ℤ} (hc : Canonical m e) (h : 0 < m) :
    (Float.Model.pack (.finite s m e h)).unpack = .finite s m e h := by
  have hunpack : (Float.Model.pack (.finite s m e h)).unpack =
      UnpackedFloat.unpack Format.binary64 (UnpackedFloat.pack Format.binary64 (.finite s m e h)) :=
    rfl
  have hbias : (e + Format.binary64.exponentBias + Format.binary64.mantissaBitsWithoutImplicit) =
      e + 1075 := by
    rw [add_assoc, toNat_bias]
  have hrange : ¬ 2 ^ Format.binary64.exponentBits ≤ (e + 1075).toNat + 1 := by
    have hleast := hc.least
    have hgreatest := hc.greatest
    change ¬ 2 ^ 11 ≤ (e + 1075).toNat + 1
    omega
  rw [hunpack, UnpackedFloat.pack]
  simp only [hbias, if_neg hrange]
  by_cases hnormal : 2 ^ 52 ≤ m
  · have hlog : m.log2 + 1 = Format.binary64.mantissaBits := by
      rw [(Nat.log2_eq_iff (Nat.ne_of_gt h)).mpr ⟨hnormal, hc.lt⟩]
      rfl
    rw [if_pos hlog]
    exact unpack_normal s hnormal hc.lt hc.least hc.greatest h
  · have hshort : m < 2 ^ 52 := Nat.lt_of_not_le hnormal
    have hlog : m.log2 + 1 ≠ Format.binary64.mantissaBits := by
      have hlt := (Nat.log2_lt (Nat.ne_of_gt h)).mpr hshort
      change m.log2 + 1 ≠ 53
      omega
    obtain rfl := hc.normal.resolve_left hnormal
    rw [if_neg hlog]
    exact unpack_subnormal s hshort h

/-! ## Taking doubles apart -/

/-- The sign bit of a double. -/
def signOf (negative : Bool) : Sign := if negative then .negative else .positive

lemma toNat_unpackMantissa (b : BitVec 64) :
    (unpackMantissa b : BitVec Format.binary64.mantissaBitsWithoutImplicit).toNat =
      b.toNat % hiddenBit := by
  simp only [unpackMantissa, BitVec.toNat_cast, BitVec.extractLsb_toNat, Nat.shiftRight_zero]
  rfl

/-- The exponent and the fraction of a double are fields of its bits. -/
lemma unpackExponent_eq_iff {b : BitVec 64} {c : BitVec 11} :
    (unpackExponent b : BitVec Format.binary64.exponentBits) = c ↔
      b.toNat / hiddenBit % 2048 = c.toNat := by
  rw [← BitVec.toNat_inj, toNat_unpackExponent]

lemma unpackMantissa_eq_zero_iff {b : BitVec 64} :
    (unpackMantissa b : BitVec Format.binary64.mantissaBitsWithoutImplicit) = 0#52 ↔
      b.toNat % hiddenBit = 0 := by
  rw [← BitVec.toNat_inj, toNat_unpackMantissa]
  rfl

lemma ofBitVec_unpackSign (b : BitVec 64) :
    Sign.ofBitVec (@unpackSign Format.binary64 b) =
      signOf (decide (UInt64.size / 2 ≤ b.toNat)) := by
  have hsign : (@unpackSign Format.binary64 b).toNat = b.toNat / 2 ^ 63 := by
    simp only [unpackSign, BitVec.toNat_cast, BitVec.extractLsb_toNat, Nat.shiftRight_eq_div_pow]
    have hlt := b.isLt
    change b.toNat / 2 ^ 63 % 2 = b.toNat / 2 ^ 63
    change b.toNat < 2 ^ 64 at hlt
    omega
  have hhalf : UInt64.size / 2 = 2 ^ 63 := rfl
  have hzero : @unpackSign Format.binary64 b = 0#1 ↔ b.toNat / 2 ^ 63 = 0 := by
    rw [← BitVec.toNat_inj, hsign]
    rfl
  rw [Sign.ofBitVec, signOf, hhalf]
  simp only [hzero, decide_eq_true_eq]
  by_cases h : 2 ^ 63 ≤ b.toNat
  · rw [if_pos h, if_neg (by omega)]
  · rw [if_neg h, if_pos (by omega)]

/-- The bits of zero or of a subnormal double. -/
lemma unpack_of_lowest {b : BitVec 64} (hexp : b.toNat / hiddenBit % 2048 = 0) :
    b.toNat % hiddenBit = 0 ∧ UnpackedFloat.unpack Format.binary64 b =
        .zero (signOf (decide (UInt64.size / 2 ≤ b.toNat))) ∨
      ∃ hm : 0 < b.toNat % hiddenBit, UnpackedFloat.unpack Format.binary64 b =
        .finite (signOf (decide (UInt64.size / 2 ≤ b.toNat))) (b.toNat % hiddenBit) (-1074) hm := by
  have hlowest : (unpackExponent b : BitVec Format.binary64.exponentBits) = 0#11 :=
    unpackExponent_eq_iff.mpr hexp
  have hfull : (0#11 : BitVec 11) ≠ -1#11 := by decide
  rw [UnpackedFloat.unpack]
  simp only [hlowest, if_neg hfull, if_true, ofBitVec_unpackSign]
  by_cases hnone : b.toNat % hiddenBit = 0
  · rw [dif_pos (unpackMantissa_eq_zero_iff.mpr hnone)]
    exact Or.inl ⟨hnone, rfl⟩
  · rw [dif_neg (mt unpackMantissa_eq_zero_iff.mp hnone)]
    refine Or.inr ⟨Nat.pos_of_ne_zero hnone, ?_⟩
    simp only [UnpackedFloat.finite.injEq, toNat_unpackMantissa]
    exact ⟨trivial, trivial, rfl⟩

/-- The bits of a normal double. -/
lemma unpack_of_normal {b : BitVec 64} (hzero : b.toNat / hiddenBit % 2048 ≠ 0)
    (hfull : b.toNat / hiddenBit % 2048 ≠ 2047) (hm : 0 < hiddenBit + b.toNat % hiddenBit) :
    UnpackedFloat.unpack Format.binary64 b =
      .finite (signOf (decide (UInt64.size / 2 ≤ b.toNat))) (hiddenBit + b.toNat % hiddenBit)
        ((b.toNat / hiddenBit % 2048 : ℕ) - 1075) hm := by
  have hzero' : (unpackExponent b : BitVec Format.binary64.exponentBits) ≠ 0#11 :=
    mt unpackExponent_eq_iff.mp hzero
  have hfull' : (unpackExponent b : BitVec Format.binary64.exponentBits) ≠ -1#11 :=
    mt unpackExponent_eq_iff.mp hfull
  have hsignificand : (1#1 ++
      (unpackMantissa b : BitVec Format.binary64.mantissaBitsWithoutImplicit)).toNat =
        hiddenBit + b.toNat % hiddenBit := by
    rw [← toNat_unpackMantissa]
    exact toNat_hidden_append _
  rw [UnpackedFloat.unpack, if_neg hfull', if_neg hzero']
  simp only [UnpackedFloat.finite.injEq, toNat_unpackExponent, ofBitVec_unpackSign]
  exact ⟨trivial, hsignificand, rfl⟩

/-- **A finite double, taken apart.** -/
theorem ofFloat_of_isFinite {x : Float} (h : x.isFinite = true) :
    ∃ negative m e, Binary.ofFloat x = .finite negative m e ∧
      (m = 0 ∧ x.toModel.unpack = .zero (signOf negative) ∨
        ∃ hm : 0 < m, Canonical m e ∧ x.toModel.unpack = .finite (signOf negative) m e hm) := by
  rw [isFinite_iff] at h
  have hbits : x.toBits.toNat = x.toModel.toBits.toBitVec.toNat := rfl
  have hunpack : x.toModel.unpack =
      UnpackedFloat.unpack Format.binary64 x.toModel.toBits.toBitVec := rfl
  rw [Binary.ofFloat]
  simp only [if_neg h]
  rw [hunpack]
  rw [hbits] at h ⊢
  generalize x.toModel.toBits.toBitVec = b at h
  have hscale : b.toNat / hiddenBit % 2048 < 2048 := Nat.mod_lt _ (by decide)
  have hfraction : b.toNat % hiddenBit < 2 ^ 52 := Nat.mod_lt _ (by decide)
  have hhidden : hiddenBit = 2 ^ 52 := rfl
  by_cases hlowest : b.toNat / hiddenBit % 2048 = 0
  · rw [if_pos hlowest]
    refine ⟨_, _, _, rfl, (unpack_of_lowest hlowest).imp_right ?_⟩
    rintro ⟨hm, hfinite⟩
    exact ⟨hm, ⟨hm, hfraction.trans (by decide), le_rfl, by decide, Or.inr rfl⟩, hfinite⟩
  · rw [if_neg hlowest]
    have hm : 0 < hiddenBit + b.toNat % hiddenBit := Nat.add_pos_left (by decide) _
    exact ⟨_, _, _, rfl, Or.inr ⟨hm, ⟨hm, by omega, by omega, by omega, Or.inl (by omega)⟩,
      unpack_of_normal hlowest h hm⟩⟩

/-! ## Values -/

/-- A positive double, and its value. -/
def HasValue (x : Float) (a : ℚ) : Prop :=
  ∃ (m : ℕ) (e : ℤ) (h : 0 < m), x.toModel.unpack = .finite .positive m e h ∧ Canonical m e ∧
    a = m * 2 ^ e

/-- No further away than one unit in the last place. -/
def Near (a exact : ℚ) : Prop := |a - exact| ≤ max (exact / 2 ^ 52) minDouble

lemma Rounded.near {a exact : ℚ} (h : Rounded a exact) : Near a exact := by
  obtain ⟨r, t, -, hnear, hplace⟩ := h
  have hunit := two_zpow_pos t
  have hhalf : (2 : ℚ) ^ t / 2 ≤ 2 ^ t := by linarith
  refine (hnear.trans hhalf).trans ?_
  rcases hplace with hsmall | rfl
  · exact le_max_of_le_left hsmall
  · exact le_max_right _ _

/-- What is too large to be stored is stored as an infinity. -/
lemma isFinite_of_pack {z : Float} {s : Sign} {m : ℕ} {e : ℤ} {h : 0 < m}
    (hz : z.toModel = Float.Model.pack (.finite s m e h)) (hfinite : z.isFinite = true) :
    e ≤ 971 := by
  by_contra hbig
  have hbias : (e + Format.binary64.exponentBias + Format.binary64.mantissaBitsWithoutImplicit) =
      e + 1075 := by
    rw [add_assoc, toNat_bias]
  have hrange : 2 ^ Format.binary64.exponentBits ≤ (e + 1075).toNat + 1 := by
    change 2 ^ 11 ≤ (e + 1075).toNat + 1
    omega
  have hpack : UnpackedFloat.pack Format.binary64 (.finite s m e h) =
      packedInfinity Format.binary64 s := by
    rw [UnpackedFloat.pack]
    simp only [hbias, if_pos hrange]
  have hunpack : z.toModel.unpack = UnpackedFloat.unpack Format.binary64
      (UnpackedFloat.pack Format.binary64 (.finite s m e h)) := by
    rw [hz]
    rfl
  rw [Float.isFinite, Float.Model.isFinite, hunpack, hpack] at hfinite
  cases s <;> cases hfinite

/-- A rounded result has a value near the exact one. -/
lemma exists_hasValue_of_rounded {z : Float} {m : ℕ} (hm : 0 < m) {e : ℤ} {acc : Accuracy}
    (hz : z.toModel =
      Float.Model.pack (roundWithAccuracy Format.binary64 .positive m e acc))
    (he : e ≤ -1074 ∨ 2 ^ 52 ≤ m) {exact : ℚ}
    (h : Marks (.ofMantissaAndAccuracy m acc) (exact / 2 ^ e)) (hmin : minDouble ≤ exact)
    (hmax : exact < maxDouble ∨ z.isFinite = true) : ∃ a, HasValue z a ∧ Rounded a exact := by
  obtain ⟨r, e', hr, hround, hrounds⟩ := exists_canonical .positive hm he h hmin
  rw [hround] at hz
  have hc : Canonical r e' := hrounds.canonical (hmax.elim hrounds.fits (isFinite_of_pack hz))
  exact ⟨_, ⟨r, e', hr, by rw [hz, unpack_pack _ hc], hc, rfl⟩, hrounds.rounded⟩

/-- The same, of a result of which nothing is lost before it is rounded. -/
lemma exists_hasValue_of_exact {z : Float} {m : ℕ} (hm : 0 < m) {e : ℤ}
    (hz : z.toModel =
      Float.Model.pack (roundWithAccuracy Format.binary64 .positive m e .exact))
    (he : e ≤ -1074 ∨ 2 ^ 52 ≤ m) {exact : ℚ} (hexact : (m : ℚ) * 2 ^ e = exact)
    (hmin : minDouble ≤ exact) (hmax : exact < maxDouble ∨ z.isFinite = true) :
    ∃ a, HasValue z a ∧ Rounded a exact := by
  refine exists_hasValue_of_rounded hm hz he ?_ hmin hmax
  rw [← hexact, mul_div_cancel_right₀ _ (two_zpow_pos e).ne']
  exact marks_exact m

/-- A significand that is moved up has places enough. -/
lemma two_pow_le_shiftLeft {m k n : ℕ} (hm : 0 < m) (h : n ≤ m.log2 + k) : 2 ^ n ≤ m <<< k := by
  calc 2 ^ n ≤ 2 ^ (m.log2 + k) := Nat.pow_le_pow_right (by decide) h
    _ = 2 ^ m.log2 * 2 ^ k := Nat.pow_add _ _ _
    _ ≤ m * 2 ^ k := Nat.mul_le_mul_right _ (Nat.log2_self_le (Nat.ne_of_gt hm))
    _ = m <<< k := (Nat.shiftLeft_eq _ _).symm

variable {x y : Float} {a b : ℚ}

/-- **A product is nearly exact.** -/
theorem HasValue.mul (hx : HasValue x a) (hy : HasValue y b) (hmin : minDouble ≤ a * b)
    (hmax : a * b < maxDouble ∨ (x * y).isFinite = true) :
    ∃ c, HasValue (x * y) c ∧ Rounded c (a * b) := by
  obtain ⟨m, e, hm, hxu, hxc, rfl⟩ := hx
  obtain ⟨n, f, hn, hyu, hyc, rfl⟩ := hy
  have hz : (x * y).toModel = Float.Model.pack
      (roundWithAccuracy Format.binary64 .positive (m * n) (e + f) .exact) := by
    have hmul : (x * y).toModel =
        Float.Model.pack (UnpackedFloat.mul Format.binary64 x.toModel.unpack y.toModel.unpack) :=
      rfl
    rw [hmul, hxu, hyu]
    rfl
  have hexact : ((m * n : ℕ) : ℚ) * 2 ^ (e + f) = m * 2 ^ e * (n * 2 ^ f) := by
    rw [zpow_add₀ (by norm_num), Nat.cast_mul]
    ring
  have hplaces : e + f ≤ -1074 ∨ 2 ^ 52 ≤ m * n := by
    rcases hxc.normal with hlong | he
    · exact Or.inr (hlong.trans (Nat.le_mul_of_pos_right m hn))
    · rcases hyc.normal with hlong | hf
      · exact Or.inr (hlong.trans (Nat.le_mul_of_pos_left n hm))
      · exact Or.inl (by omega)
  exact exists_hasValue_of_exact (Nat.mul_pos hm hn) hz hplaces hexact hmin hmax

/-- The quotient of two significands has enough places. -/
lemma divCore_spec {m n : ℕ} (hm : 0 < m) (hn : 0 < n) (e f : ℤ) :
    ∃ q t acc, divCore Format.binary64 m e n f = (q, t, acc) ∧
      Marks (.ofMantissaAndAccuracy q acc) (m * 2 ^ e / (n * 2 ^ f) / 2 ^ t) ∧
      (t ≤ -1074 ∨ 2 ^ 52 ≤ q) := by
  set t := min (e - f) (Format.binary64.targetExponent (totalExponent m e - totalExponent n f))
    with ht
  set k := (e - f - t).toNat with hk
  have hle : t ≤ e - f := min_le_left _ _
  have hshift : t + k = e - f := by omega
  have hnq : (0 : ℚ) < n := by exact_mod_cast hn
  -- the quotient in units of the last place
  have hexact : (m : ℚ) * 2 ^ e / (n * 2 ^ f) / 2 ^ t = ((m <<< k : ℕ) : ℚ) / n := by
    have he : (2 : ℚ) ^ e = 2 ^ k * 2 ^ t * 2 ^ f := by
      rw [← zpow_natCast, ← zpow_add₀ (by norm_num), ← zpow_add₀ (by norm_num)]
      congr 1
      omega
    rw [he, Nat.shiftLeft_eq, Nat.cast_mul, Nat.cast_pow, Nat.cast_ofNat]
    field_simp
  have hdivision : ((m <<< k : ℕ) : ℚ) / n =
      (m <<< k / n : ℕ) + ((m <<< k % n : ℕ) : ℚ) / n := by
    have hsum : ((n * (m <<< k / n) + m <<< k % n : ℕ) : ℚ) = (m <<< k : ℕ) := by
      rw [Nat.div_add_mod]
    rw [← hsum, Nat.cast_add, Nat.cast_mul, add_div, mul_div_cancel_left₀ _ hnq.ne']
  refine ⟨m <<< k / n, t, accuracyOfFraction (m <<< k % n) n, rfl, ?_, ?_⟩
  · rw [hexact, hdivision]
    exact marks_fraction _ (Nat.mod_lt _ hn)
  · by_cases hleast : t ≤ -1074
    · exact Or.inl hleast
    · right
      have htarget : t ≤ (m.log2 : ℤ) + e - n.log2 - f - 53 := by
        have hright : t ≤ max ((m.log2 + 1 + e - (n.log2 + 1 + f)) - 53) (-1074) := min_le_right _ _
        rcases le_max_iff.mp hright with h | h <;> omega
      have hlog : n.log2 + 1 + 52 ≤ m.log2 + k := by omega
      rw [Nat.le_div_iff_mul_le hn]
      calc 2 ^ 52 * n
          ≤ 2 ^ 52 * 2 ^ (n.log2 + 1) := Nat.mul_le_mul_left _ Nat.lt_log2_self.le
        _ = 2 ^ (n.log2 + 1 + 52) := by rw [Nat.pow_add 2 (n.log2 + 1), Nat.mul_comm]
        _ ≤ m <<< k := two_pow_le_shiftLeft hm hlog

/-- **A quotient is nearly exact.** -/
theorem HasValue.div (hx : HasValue x a) (hy : HasValue y b) (hmin : minDouble ≤ a / b)
    (hmax : a / b < maxDouble ∨ (x / y).isFinite = true) :
    ∃ c, HasValue (x / y) c ∧ Rounded c (a / b) := by
  obtain ⟨m, e, hm, hxu, hxc, rfl⟩ := hx
  obtain ⟨n, f, hn, hyu, hyc, rfl⟩ := hy
  obtain ⟨q, t, acc, hcore, hmarks, hplaces⟩ := divCore_spec hm hn e f
  have hz : (x / y).toModel =
      Float.Model.pack (roundWithAccuracy Format.binary64 .positive q t acc) := by
    have hdiv : (x / y).toModel =
        Float.Model.pack (UnpackedFloat.div Format.binary64 x.toModel.unpack y.toModel.unpack) :=
      rfl
    rw [hdiv, hxu, hyu, UnpackedFloat.div, hcore]
    rfl
  have hpos : 0 < q := by
    rcases hplaces with hleast | hlong
    · by_contra hzero
      have hless := hmarks.lt
      rw [mantissa_ofMantissaAndAccuracy, Nat.eq_zero_of_not_pos hzero, Nat.cast_zero, zero_add,
        div_lt_one (two_zpow_pos t)] at hless
      exact absurd (hmin.trans_lt hless) (not_lt.mpr (two_zpow_le hleast))
    · exact Nat.lt_of_lt_of_le (by norm_num) hlong
  exact exists_hasValue_of_rounded hpos hz hplaces hmarks hmin hmax

/-! ## Counts and powers of ten -/

lemma minDouble_le_one : minDouble ≤ 1 := by
  rw [minDouble]
  exact zpow_le_one_of_nonpos₀ (by norm_num) (by norm_num)

lemma two_pow_lt_maxDouble {n : ℕ} (hn : n ≤ 971) : (2 : ℚ) ^ n < maxDouble := by
  have hbig := two_zpow_le (e := n) (f := 971) (by omega)
  have hunit := two_zpow_pos 971
  rw [zpow_natCast] at hbig
  rw [maxDouble]
  generalize (2 : ℚ) ^ (971 : ℤ) = top at hbig hunit ⊢
  linarith

/-- **A count of 64 bits is converted nearly exactly.** -/
theorem hasValue_ofCount {n : ℕ} (hpos : 0 < n) (hlt : n < 2 ^ 64) :
    ∃ a, HasValue (ofCount n) a ∧ Rounded a n := by
  set k := (0 - lastPlace n 0).toNat with hk
  have hplace : lastPlace n 0 = max ((n.log2 : ℤ) - 52) (-1074) := by rw [lastPlace, add_zero]
  have hz : (ofCount n).toModel = Float.Model.pack
      (roundWithAccuracy Format.binary64 .positive (n <<< k) (0 - k) .exact) := by
    have hof : (ofCount n).toModel =
        Float.Model.pack (UnpackedFloat.normalize Format.binary64 ((UInt64.ofNat n).toNat : ℤ) 0
          .positive) := rfl
    have hcompare : compare (n : ℤ) 0 = .gt := compare_gt_iff_gt.mpr (by exact_mod_cast hpos)
    rw [hof, UInt64.toNat_ofNat_of_lt' hlt]
    simp only [UnpackedFloat.normalize, hcompare, Int.toNat_natCast, UnpackedFloat.round,
      targetExponent_eq, decreaseExponent, ← hk]
  have hshifted : 0 < n <<< k := by
    rw [Nat.shiftLeft_eq]
    exact Nat.mul_pos hpos (Nat.two_pow_pos k)
  have hexact : ((n <<< k : ℕ) : ℚ) * 2 ^ (0 - k : ℤ) = n := by
    rw [Nat.shiftLeft_eq, zero_sub, zpow_neg, zpow_natCast]
    push_cast
    field_simp
  have hlong : 2 ^ 52 ≤ n <<< k := two_pow_le_shiftLeft hpos (by omega)
  have hone : (1 : ℚ) ≤ n := by exact_mod_cast hpos
  have hmax : (n : ℚ) < 2 ^ 64 := by exact_mod_cast hlt
  exact exists_hasValue_of_exact hshifted hz (Or.inr hlong) hexact
    (minDouble_le_one.trans hone) (Or.inl (hmax.trans (two_pow_lt_maxDouble (by decide))))

/-- A significand and an exponent that are stored as they are. -/
def isCanonical (m : ℕ) (e : ℤ) : Bool :=
  decide (0 < m ∧ m < 2 ^ 53 ∧ -1074 ≤ e ∧ e ≤ 971 ∧ (2 ^ 52 ≤ m ∨ e = -1074))

lemma Canonical.of_isCanonical {m : ℕ} {e : ℤ} (h : isCanonical m e = true) : Canonical m e := by
  obtain ⟨hpos, hlt, hleast, hgreatest, hnormal⟩ := of_decide_eq_true h
  exact ⟨hpos, hlt, hleast, hgreatest, hnormal⟩

/-- A double has a value of which something holds that is decided. -/
def valueHas (test : ℕ → ℤ → Bool) : UnpackedFloat → Bool
  | .finite .positive m e _ => isCanonical m e && test m e
  | _ => false

lemma exists_of_valueHas {test : ℕ → ℤ → Bool} (h : valueHas test x.toModel.unpack = true) :
    ∃ (m : ℕ) (e : ℤ), HasValue x (m * 2 ^ e) ∧ test m e = true := by
  unfold valueHas at h
  split at h
  · next m e hm hunpack =>
      rw [Bool.and_eq_true] at h
      exact ⟨m, e, ⟨m, e, hm, hunpack, .of_isCanonical h.1, rfl⟩, h.2⟩
  · cases h

lemma isExact_smallPower : ∀ n < 23,
    valueHas (fun m e => m * 2 ^ e.toNat = 10 ^ n * 2 ^ (-e).toNat)
      (Float.ofScientific 1 false n).toModel.unpack = true := by
  decide +kernel

/-- The first powers of ten are doubles. -/
lemma hasValue_smallPower {n : ℕ} (hn : n < 23) :
    HasValue (Float.ofScientific 1 false n) (10 ^ n) := by
  obtain ⟨m, e, hvalue, hexact⟩ := exists_of_valueHas (isExact_smallPower n hn)
  have hcast : (m : ℚ) * 2 ^ e.toNat = 10 ^ n * 2 ^ (-e).toNat := by
    exact_mod_cast of_decide_eq_true hexact
  have hsplit : (2 : ℚ) ^ e = 2 ^ e.toNat / 2 ^ (-e).toNat := by
    rw [← zpow_natCast, ← zpow_natCast, ← zpow_sub₀ (by norm_num), Int.toNat_sub_toNat_neg]
  rwa [hsplit, ← mul_div_assoc, hcast, mul_div_cancel_right₀ _ (by positivity)] at hvalue

/-- What is a double already is not changed. -/
lemma HasValue.rounded (h : HasValue x a) : Rounded a a := by
  obtain ⟨m, e, hm, -, hc, rfl⟩ := h
  have hunit := two_zpow_pos e
  refine ⟨m, e, rfl, ?_, hc.normal.imp_left fun hlong => ?_⟩
  · rw [sub_self, abs_zero]
    exact (half_pos hunit).le
  · have hfull : (2 : ℚ) ^ 52 ≤ m := by exact_mod_cast hlong
    rw [le_div_iff₀ (by norm_num), mul_comm]
    exact mul_le_mul_of_nonneg_right hfull hunit.le

/-- The powers of ten that are next to the largest double and to the least one. -/
lemma ten_pow_bounds :
    (10 ^ 308 < (2 ^ 53 - 1) * 2 ^ 971 ∧ 2 ^ 53 * 2 ^ 971 < 10 ^ 309) ∧
      10000 * 10 ^ 308 ≤ 2 ^ 1074 ∧ 2 * 2 ^ 1074 < 10 ^ 324 := by
  decide +kernel

lemma tenPower_lt_maxDouble : (10 : ℚ) ^ 308 < maxDouble := by
  have hcast : (((2 ^ 53 - 1) * 2 ^ 971 : ℕ) : ℚ) = maxDouble := by
    rw [maxDouble, Nat.cast_mul, Nat.cast_sub (by decide), zpow_ofNat, Nat.cast_pow, Nat.cast_pow,
      Nat.cast_ofNat, Nat.cast_one]
  rw [← hcast]
  exact_mod_cast ten_pow_bounds.1.1

/-- **A power of ten is nearly exact.** -/
theorem hasValue_ofScientific {n : ℕ} (hn : n ≤ 308) :
    ∃ a, HasValue (Float.ofScientific 1 false n) a ∧ Rounded a (10 ^ n) := by
  rcases Nat.lt_or_ge n 23 with hsmall | hbig
  · exact ⟨_, hasValue_smallPower hsmall, (hasValue_smallPower hsmall).rounded⟩
  · have hslow : ¬ (1 < 2 ^ 53 ∧ n ≤ 22) := by omega
    have hz : (Float.ofScientific 1 false n).toModel = Float.Model.pack
        (roundWithAccuracy Format.binary64 .positive (2 ^ 53 * 10 ^ n) (-53) .exact) := by
      have hof : (Float.ofScientific 1 false n).toModel =
          Float.Model.pack (UnpackedFloat.ofScientific Format.binary64 1 n) := by
        rw [Float.ofScientific, dif_neg hslow]
        rfl
      have hone : ¬ (1 : ℕ) = 0 := by decide
      have hbounded : ¬ (n : ℤ) > 2 ^ Format.binary64.exponentBits := by
        change ¬ (n : ℤ) > 2 ^ 11
        omega
      have hwhole : ¬ (n : ℤ) < -((2 ^ Format.binary64.exponentBits : ℤ) + Nat.log2 1) := by
        omega
      rw [hof, UnpackedFloat.ofScientific, dif_neg hone, if_neg hbounded, if_neg hwhole,
        if_pos (Int.natCast_nonneg n)]
      rfl
    have hexact : ((2 ^ 53 * 10 ^ n : ℕ) : ℚ) * 2 ^ (-53 : ℤ) = 10 ^ n := by
      rw [zpow_neg, mul_comm]
      push_cast
      exact inv_mul_cancel_left₀ (by norm_num) _
    have hten : (1 : ℚ) ≤ 10 ^ n := one_le_pow₀ (by norm_num)
    have hmax : (10 : ℚ) ^ n < maxDouble :=
      (pow_le_pow_right₀ (by norm_num) hn).trans_lt tenPower_lt_maxDouble
    have hlong : 2 ^ 52 ≤ 2 ^ 53 * 10 ^ n :=
      Nat.le_trans (by decide) (Nat.le_mul_of_pos_right _ (Nat.pow_pos (by decide)))
    exact exists_hasValue_of_exact (Nat.lt_of_lt_of_le (by decide) hlong) hz (Or.inr hlong)
      hexact (minDouble_le_one.trans hten) (Or.inl hmax)

/-! ## Signs -/

lemma unpack_zero : (0 : Float).toModel.unpack = .zero .positive := rfl

lemma HasValue.isFinite (h : HasValue x a) : x.isFinite = true := by
  obtain ⟨m, e, hm, hu, -, -⟩ := h
  rw [Float.isFinite, Float.Model.isFinite, hu]
  rfl

lemma HasValue.isInf_eq (h : HasValue x a) : x.isInf = false := by
  obtain ⟨m, e, hm, hu, -, -⟩ := h
  rw [Float.isInf, Float.Model.isInf, hu]
  rfl

lemma HasValue.beq_zero (h : HasValue x a) : (x == 0) = false := by
  obtain ⟨m, e, hm, hu, -, -⟩ := h
  have hbeq : (x == 0) = x.toModel.unpack.beq (0 : Float).toModel.unpack := rfl
  rw [hbeq, hu, unpack_zero]
  rfl

lemma zero_lt_iff (x : Float) :
    0 < x ↔ (UnpackedFloat.zero .positive).lt x.toModel.unpack = true := by
  have hlt : (0 < x) = ((0 : Float).lt x = true) := rfl
  have hmodel : (0 : Float).lt x = decide ((0 : Float).toModel < x.toModel) := rfl
  rw [hlt, hmodel, decide_eq_true_eq, ← unpack_zero]
  rfl

/-- A positive double is greater than zero. -/
lemma HasValue.pos (h : HasValue x a) : 0 < x := by
  obtain ⟨m, e, hm, hu, -, -⟩ := h
  rw [zero_lt_iff, hu]
  rfl

lemma HasValue.isFinite_neg (h : HasValue x a) : (-x).isFinite = true := by
  obtain ⟨m, e, hm, hu, hc, -⟩ := h
  have hneg : (-x).toModel = Float.Model.pack x.toModel.unpack.neg := rfl
  rw [Float.isFinite, Float.Model.isFinite, hneg, hu, UnpackedFloat.neg, unpack_pack _ hc]
  rfl

lemma HasValue.value_pos (h : HasValue x a) : 0 < a := by
  obtain ⟨m, e, hm, -, -, rfl⟩ := h
  exact mul_pos (by exact_mod_cast hm) (two_zpow_pos e)

/-- What is greater than zero has no sign and a significand. -/
lemma signOf_of_pos {negative : Bool} {m : ℕ} (h : 0 < x)
    (hx : m = 0 ∧ x.toModel.unpack = .zero (signOf negative) ∨
      ∃ (e : ℤ) (hm : 0 < m), x.toModel.unpack = .finite (signOf negative) m e hm) :
    negative = false ∧ 0 < m := by
  rw [zero_lt_iff] at h
  rcases hx with ⟨-, hu⟩ | ⟨e, hm, hu⟩
  · rw [hu] at h
    cases negative <;> cases h
  · rw [hu] at h
    cases negative with
    | false => exact ⟨rfl, hm⟩
    | true => cases h

end RewindRelay.Decimal
