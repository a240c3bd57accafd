import StatsDaemon.Binary64
import StatsDaemon.Proofs.Binary64.Rounding

namespace StatsDaemon.Binary64

open Float.Model Float.Model.UnpackedFloat

theorem biasedExponent_eq (x : Binary64) : x.biasedExponent = x.bits.toNat / 2 ^ 52 % 2 ^ 11 := by
  rw [biasedExponent, UInt64.toNat_and, UInt64.toNat_shiftRight]
  exact (Nat.and_two_pow_sub_one_eq_mod _ 11).trans (by rw [Nat.shiftRight_eq_div_pow]; rfl)

theorem fraction_eq (x : Binary64) : x.fraction = x.bits.toNat % 2 ^ 52 := by
  rw [fraction, UInt64.toNat_and]
  exact Nat.and_two_pow_sub_one_eq_mod _ 52

theorem eq_of_toNat_eq {x y : Binary64} (h : x.bits.toNat = y.bits.toNat) : x = y := by
  cases x
  cases y
  rw [mk.injEq]
  exact UInt64.toNat_inj.mp h

theorem toNat_abs (x : Binary64) :
    x.abs.bits.toNat = x.biasedExponent * 2 ^ 52 + x.fraction := by
  have hmask : x.abs.bits.toNat = x.bits.toNat % 2 ^ 63 := by
    rw [← Nat.and_two_pow_sub_one_eq_mod]
    exact UInt64.toNat_and _ _
  rw [hmask, biasedExponent_eq, fraction_eq]
  omega

theorem isNegative_iff (x : Binary64) : x.isNegative = true ↔ 2 ^ 63 ≤ x.bits.toNat := by
  have hsign : (x.bits &&& signBit).toNat = (x.bits.toNat.testBit 63).toNat * 2 ^ 63 :=
    (UInt64.toNat_and _ _).trans (Nat.and_two_pow _ 63)
  have hlt := x.bits.toNat_lt
  rw [isNegative, bne_iff_ne, ne_eq, ← UInt64.toNat_inj, hsign, Nat.testBit_eq_decide_div_mod_eq]
  have hbit : x.bits.toNat / 2 ^ 63 % 2 = 1 ↔ 2 ^ 63 ≤ x.bits.toNat := by omega
  simpa using hbit

theorem toNat_withSign (negative : Bool) (x : Binary64) :
    (x.withSign negative).bits.toNat = (if negative then 2 ^ 63 else 0) + x.bits.toNat % 2 ^ 63 := by
  cases negative with
  | false =>
    rw [← Nat.and_two_pow_sub_one_eq_mod, if_neg Bool.false_ne_true, Nat.zero_add]
    exact UInt64.toNat_and _ _
  | true =>
    have hlt := x.bits.toNat_lt
    have hor : (x.withSign true).bits.toNat = x.bits.toNat ||| 2 ^ 63 := UInt64.toNat_or _ _
    have hlow := Nat.or_mod_two_pow (a := x.bits.toNat) (b := 2 ^ 63) (n := 63)
    have hhigh := Nat.or_div_two_pow (a := x.bits.toNat) (b := 2 ^ 63) (n := 63)
    have hbit : x.bits.toNat / 2 ^ 63 ||| 1 = 1 := by
      obtain h | h : x.bits.toNat / 2 ^ 63 = 0 ∨ x.bits.toNat / 2 ^ 63 = 1 := by omega
      all_goals rw [h]; rfl
    rw [Nat.mod_self, Nat.or_zero] at hlow
    rw [Nat.div_self (by norm_num), hbit] at hhigh
    rw [hor, if_pos rfl]
    omega

theorem withSign_abs (x : Binary64) : x.abs.withSign x.isNegative = x := by
  have hlt := x.bits.toNat_lt
  refine eq_of_toNat_eq ?_
  rw [toNat_withSign, abs, toNat_withSign, if_neg Bool.false_ne_true]
  by_cases hle : x.isNegative = true
  · have := x.isNegative_iff.mp hle
    rw [if_pos hle]
    omega
  · have := mt x.isNegative_iff.mpr hle
    rw [if_neg hle]
    omega

theorem abs_of_not_isNegative {x : Binary64} (h : x.isNegative = false) : x.abs = x := by
  have hlow := mt x.isNegative_iff.mpr (Bool.eq_false_iff.mp h)
  refine eq_of_toNat_eq ?_
  rw [abs, toNat_withSign, if_neg Bool.false_ne_true]
  omega

theorem abs_withSign (negative : Bool) (x : Binary64) : (x.withSign negative).abs = x.abs := by
  refine eq_of_toNat_eq ?_
  rw [abs, abs, toNat_withSign, toNat_withSign, toNat_withSign, if_neg Bool.false_ne_true]
  split <;> omega

theorem isNegative_abs (x : Binary64) : x.abs.isNegative = false := by
  refine Bool.eq_false_iff.mpr fun hneg => ?_
  have hhigh := x.abs.isNegative_iff.mp hneg
  rw [abs, toNat_withSign, if_neg Bool.false_ne_true] at hhigh
  omega

theorem fraction_lt (x : Binary64) : x.fraction < 2 ^ 52 := by
  rw [fraction_eq]
  exact Nat.mod_lt _ (by norm_num)

theorem biasedExponent_abs (x : Binary64) : x.abs.biasedExponent = x.biasedExponent := by
  have hfraction := x.fraction_lt
  rw [biasedExponent_eq, toNat_abs, biasedExponent_eq]
  omega

theorem fraction_abs (x : Binary64) : x.abs.fraction = x.fraction := by
  rw [fraction_eq, toNat_abs, fraction_eq]
  omega

theorem isFinite_abs (x : Binary64) : x.abs.isFinite = x.isFinite := by
  rw [isFinite, isFinite, biasedExponent_abs]

theorem isNaN_abs (x : Binary64) : x.abs.isNaN = x.isNaN := by
  rw [isNaN, isNaN, biasedExponent_abs, fraction_abs]

theorem abs_eq_infinity {x : Binary64} (hnan : x.isNaN = false) (h : x.isFinite = false) :
    x.abs = infinity := by
  simp only [isNaN, isFinite, bne_eq_false_iff_eq, Bool.and_eq_false_iff,
    beq_eq_false_iff_ne] at h hnan
  refine eq_of_toNat_eq ?_
  rw [toNat_abs, h, hnan.resolve_left (fun hne => hne h)]
  rfl

theorem canonical_of_finite (x : Binary64) (hx : x.isFinite = true) (hzero : x.isZero = false) :
    Canonical x.significand x.unit := by
  have hfraction := x.fraction_lt
  have hexponent : x.biasedExponent < 2 ^ 11 := by
    rw [biasedExponent_eq]
    exact Nat.mod_lt _ (by norm_num)
  have hmax : x.biasedExponent ≠ 0x7ff := by simpa [isFinite] using hx
  have hne : x.biasedExponent = 0 → x.fraction ≠ 0 := by simpa [isZero] using hzero
  by_cases hsub : x.biasedExponent = 0
  · have hpos := hne hsub
    refine ⟨?_, ?_, ?_, ?_, ?_⟩ <;> simp only [significand, unit, if_pos hsub] <;> omega
  · refine ⟨?_, ?_, ?_, ?_, ?_⟩ <;> simp only [significand, unit, if_neg hsub] <;> omega

theorem Canonical.log2 {n : ℕ} {u : ℤ} (h : Canonical n u) : n.log2 = 52 ↔ 2 ^ 52 ≤ n := by
  have hlt : n.log2 < 53 := (Nat.log2_lt h.pos.ne').mpr h.lt
  rw [← Nat.le_log2 h.pos.ne']
  omega

theorem exponentBias_eq : Format.binary64.exponentBias = 1023 := rfl

theorem mantissaBits_eq : Format.binary64.mantissaBits = 53 := rfl

theorem pack_normal {s : Sign} {n : ℕ} {u : ℤ} (h : Canonical n u) (hn : 2 ^ 52 ≤ n) :
    UnpackedFloat.pack Format.binary64 (.finite s n u h.pos) =
      packComponents Format.binary64 s (BitVec.ofNat 11 (u + 1075).toNat)
        (BitVec.ofNat 52 n) := by
  have hmost := h.most
  have hbias : u + ((1023 : ℕ) : ℤ) + ((52 : ℕ) : ℤ) = u + 1075 := by omega
  have hfits : ¬ 2 ^ 11 ≤ (u + 1075).toNat + 1 := by omega
  simp only [UnpackedFloat.pack, exponentBias_eq, mantissaBits_eq, hbias, h.log2.mpr hn, if_neg hfits,
    if_true]

theorem pack_subnormal {s : Sign} {n : ℕ} {u : ℤ} (h : Canonical n u) (hn : n < 2 ^ 52) :
    UnpackedFloat.pack Format.binary64 (.finite s n u h.pos) =
      packComponents Format.binary64 s 0#11 (BitVec.ofNat 52 n) := by
  have hmost := h.most
  have hlog : ¬ n.log2 + 1 = 53 := fun hlog => absurd (h.log2.mp (by omega)) (by omega)
  have hbias : u + ((1023 : ℕ) : ℤ) + ((52 : ℕ) : ℤ) = u + 1075 := by omega
  have hfits : ¬ 2 ^ 11 ≤ (u + 1075).toNat + 1 := by omega
  simp only [UnpackedFloat.pack, exponentBias_eq, mantissaBits_eq, hbias, if_neg hfits, if_neg hlog]

theorem unpack_pack {s : Sign} {n : ℕ} {u : ℤ} (h : Canonical n u) (hn : 2 ^ 52 ≤ n) :
    (Float.Model.pack (.finite s n u h.pos)).unpack = .finite s n u h.pos := by
  have hmost := h.most
  have hleast := h.least
  have hlt := h.lt
  have hexponent : (BitVec.ofNat 11 (u + 1075).toNat).toNat = (u + 1075).toNat := by
    rw [BitVec.toNat_ofNat, Nat.mod_eq_of_lt (by omega)]
  have hones : BitVec.ofNat 11 (u + 1075).toNat ≠ -1#11 := by
    intro heq
    have := congrArg BitVec.toNat heq
    rw [hexponent] at this
    norm_num at this
    omega
  have hzeros : BitVec.ofNat 11 (u + 1075).toNat ≠ 0#11 := by
    intro heq
    have := congrArg BitVec.toNat heq
    rw [hexponent] at this
    norm_num at this
    omega
  have hmantissa : (1#1 ++ BitVec.ofNat 52 n).toNat = n := by
    rw [BitVec.toNat_append, BitVec.toNat_ofNat, BitVec.toNat_ofNat,
      ← Nat.shiftLeft_add_eq_or_of_lt (Nat.mod_lt _ (by norm_num)), Nat.shiftLeft_eq]
    omega
  change UnpackedFloat.unpack Format.binary64
    (UnpackedFloat.pack Format.binary64 (.finite s n u h.pos)) = _
  rw [pack_normal h hn, UnpackedFloat.unpack]
  simp only [unpackExponent_packComponents, unpackMantissa_packComponents,
    unpackSign_packComponents, Sign.ofBitVec_toBitVec, hones, hzeros, if_false, hexponent,
    hmantissa, exponentBias_eq]
  congr 1
  omega

theorem unpack_pack_subnormal {s : Sign} {n : ℕ} {u : ℤ} (h : Canonical n u) (hn : n < 2 ^ 52) :
    (Float.Model.pack (.finite s n u h.pos)).unpack = .finite s n u h.pos := by
  have hu : u = -1074 := h.normal.resolve_left (by omega)
  have hmantissa : (BitVec.ofNat 52 n).toNat = n := by
    rw [BitVec.toNat_ofNat, Nat.mod_eq_of_lt hn]
  have hfraction : BitVec.ofNat 52 n ≠ 0#52 := by
    intro heq
    have hzero := congrArg BitVec.toNat heq
    rw [hmantissa] at hzero
    exact h.pos.ne' hzero
  change UnpackedFloat.unpack Format.binary64
    (UnpackedFloat.pack Format.binary64 (.finite s n u h.pos)) = _
  rw [pack_subnormal h hn, UnpackedFloat.unpack]
  simp only [unpackExponent_packComponents, unpackMantissa_packComponents,
    unpackSign_packComponents, Sign.ofBitVec_toBitVec, hfraction, dif_neg, not_false_eq_true,
    hmantissa, exponentBias_eq]
  subst hu
  rfl

theorem toNat_packComponents (e : BitVec 11) (m : BitVec 52) :
    (packComponents Format.binary64 .positive e m).toNat = e.toNat * 2 ^ 52 + m.toNat := by
  have hsign : (Sign.positive.toBitVec ++ e).toNat = e.toNat := by
    rw [BitVec.toNat_append]
    simp [Sign.toBitVec]
  rw [packComponents, BitVec.toNat_append, hsign, ← Nat.shiftLeft_add_eq_or_of_lt m.isLt,
    Nat.shiftLeft_eq]

theorem pack_significand (x : Binary64) (h : Canonical x.significand x.unit) :
    ofFloat ⟨Float.Model.pack (.finite .positive x.significand x.unit h.pos)⟩ = x.abs := by
  have hfraction := x.fraction_lt
  refine eq_of_toNat_eq ?_
  change (UnpackedFloat.pack Format.binary64
    (.finite .positive x.significand x.unit h.pos)).toNat = _
  rw [toNat_abs]
  by_cases hsub : x.biasedExponent = 0
  · have hsignificand : x.significand = x.fraction := by rw [significand, if_pos hsub]
    rw [pack_subnormal h (by omega), toNat_packComponents, hsub, hsignificand]
    simp only [BitVec.toNat_ofNat]
    omega
  · have hsignificand : x.significand = x.fraction + 0x10000000000000 := by
      rw [significand, if_neg hsub]
    have hunit : (x.unit + 1075).toNat = x.biasedExponent := by
      rw [unit]
      omega
    have hmost := h.most
    rw [pack_normal h (by omega), toNat_packComponents, hunit, hsignificand]
    simp only [BitVec.toNat_ofNat]
    omega

theorem toNat_unpackExponent (x : Binary64) :
    (@unpackExponent Format.binary64 x.bits.toBitVec).toNat = x.biasedExponent := by
  rw [unpackExponent_def, BitVec.extractLsb'_toNat, biasedExponent_eq, Nat.shiftRight_eq_div_pow]
  rfl

theorem unpack_packedInfinity (s : Sign) :
    UnpackedFloat.unpack Format.binary64 (packedInfinity Format.binary64 s) = .infinity s := by
  cases s <;> rfl

theorem unpack_packedNaN :
    UnpackedFloat.unpack Format.binary64 (packedNaN Format.binary64) = .notANumber :=
  rfl

theorem toNat_unpackMantissa (x : Binary64) :
    (@unpackMantissa Format.binary64 x.bits.toBitVec).toNat = x.fraction := by
  rw [unpackMantissa_def, BitVec.extractLsb'_toNat, fraction_eq]
  rfl

theorem isZero_of_unpack {x : Binary64} {s : Sign}
    (h : UnpackedFloat.unpack Format.binary64 x.bits.toBitVec = .zero s) : x.isZero = true := by
  have hexponent := toNat_unpackExponent x
  have hmantissa := toNat_unpackMantissa x
  unfold UnpackedFloat.unpack at h
  dsimp only at h
  split at h
  · split at h <;> cases h
  · split at h
    · rename_i hzeros
      split at h
      · rename_i hfraction
        rw [hzeros] at hexponent
        rw [hfraction] at hmantissa
        simp [isZero, ← hexponent, ← hmantissa]
      · cases h
    · cases h

theorem unpack_toFloat_of_isNaN {x : Binary64} (h : x.isNaN = true) :
    x.toFloat.toModel.unpack = .notANumber := by
  simp only [isNaN, Bool.and_eq_true, beq_iff_eq, bne_iff_ne, ne_eq] at h
  have hexponent : @unpackExponent Format.binary64 x.bits.toBitVec = -1#11 :=
    BitVec.eq_of_toNat_eq ((toNat_unpackExponent x).trans h.1)
  have hmantissa : @unpackMantissa Format.binary64 x.bits.toBitVec ≠ 0#52 := fun hzero =>
    h.2 ((toNat_unpackMantissa x).symm.trans (congrArg BitVec.toNat hzero))
  change UnpackedFloat.unpack Format.binary64 (UnpackedFloat.pack Format.binary64
    (UnpackedFloat.unpack Format.binary64 x.bits.toBitVec)) = _
  have hunpack : UnpackedFloat.unpack Format.binary64 x.bits.toBitVec = .notANumber := by
    unfold UnpackedFloat.unpack
    simp only [hexponent, if_true]
    exact if_neg hmantissa
  rw [hunpack, UnpackedFloat.pack, unpack_packedNaN]

theorem unpack_toFloat_of_not_isFinite {x : Binary64} (h : x.isFinite = false) :
    x.toFloat.toModel.unpack = .notANumber ∨ ∃ s, x.toFloat.toModel.unpack = .infinity s := by
  have hexponent : @unpackExponent Format.binary64 x.bits.toBitVec = -1#11 := by
    have hmax : x.biasedExponent = 2047 := by simpa [isFinite] using h
    exact BitVec.eq_of_toNat_eq ((toNat_unpackExponent x).trans hmax)
  have hunpack : UnpackedFloat.unpack Format.binary64 x.bits.toBitVec = .notANumber ∨
      ∃ s, UnpackedFloat.unpack Format.binary64 x.bits.toBitVec = .infinity s := by
    unfold UnpackedFloat.unpack
    simp only [hexponent, if_true]
    split
    · exact .inr ⟨_, rfl⟩
    · exact .inl rfl
  change UnpackedFloat.unpack Format.binary64 (UnpackedFloat.pack Format.binary64
    (UnpackedFloat.unpack Format.binary64 x.bits.toBitVec)) = _ ∨ ∃ s, UnpackedFloat.unpack
      Format.binary64 (UnpackedFloat.pack Format.binary64
        (UnpackedFloat.unpack Format.binary64 x.bits.toBitVec)) = _
  rcases hunpack with hnan | ⟨s, hinf⟩
  · rw [hnan]
    exact .inl unpack_packedNaN
  · rw [hinf]
    exact .inr ⟨s, unpack_packedInfinity s⟩

theorem zero_eq : (0 : Binary64) = ⟨0⟩ := by
  decide +kernel

theorem one_eq : (1 : Binary64) = ⟨0x3ff0000000000000⟩ := by
  decide +kernel

theorem abs_of_isZero (x : Binary64) (h : x.isZero = true) : x.abs = 0 := by
  simp only [isZero, Bool.and_eq_true, beq_iff_eq] at h
  refine eq_of_toNat_eq ?_
  rw [toNat_abs, h.1, h.2, zero_eq]
  rfl

theorem unpack_zero : (0 : Binary64).toFloat.toModel.unpack = .zero .positive := by
  rw [zero_eq]
  rfl

theorem unpack_one : (1 : Binary64).toFloat.toModel.unpack =
    .finite .positive (2 ^ 52) (-52) (by norm_num) := by
  rw [one_eq]
  rfl

theorem isFinite_of_between {x : Binary64} (hpos : 0 < x) (hone : x ≤ 1) : x.isFinite = true := by
  have hlt : UnpackedFloat.lt (0 : Binary64).toFloat.toModel.unpack
      x.toFloat.toModel.unpack = true :=
    @of_decide_eq_true ((0 : Binary64).toFloat.toModel < x.toFloat.toModel) _ hpos
  have hle : UnpackedFloat.le x.toFloat.toModel.unpack
      (1 : Binary64).toFloat.toModel.unpack = true :=
    @of_decide_eq_true (x.toFloat.toModel ≤ (1 : Binary64).toFloat.toModel) _ hone
  rw [unpack_zero] at hlt
  rw [unpack_one] at hle
  by_contra hinf
  rcases unpack_toFloat_of_not_isFinite (Bool.eq_false_iff.mpr hinf) with hnan | ⟨s, hs⟩
  · rw [hnan] at hlt
    simp [UnpackedFloat.lt, UnpackedFloat.compare] at hlt
  · rw [hs] at hlt hle
    cases s
    · simp [UnpackedFloat.lt, UnpackedFloat.compare] at hlt
    · simp [UnpackedFloat.le, UnpackedFloat.compare] at hle

end StatsDaemon.Binary64
