import StatsDaemon.Proofs.Binary64.Nearest

namespace StatsDaemon.Binary64

open Float.Model Float.Model.UnpackedFloat

-- A significand with its exponent as the format has them, zero and overflow included.
structure Fits (n : ℕ) (u : ℤ) : Prop where
  lt : n < 2 ^ 53
  least : -1074 ≤ u
  normal : 2 ^ 52 ≤ n ∨ u = -1074

structure Near (v : ℚ) (n : ℕ) (u : ℤ) : Prop extends Fits n u where
  lower : ((n : ℚ) - 1 / 2) * 2 ^ u ≤ v
  upper : v ≤ (n + 1 / 2) * 2 ^ u

def signed (s : Sign) (n : ℕ) (u : ℤ) : UnpackedFloat :=
  if h : n = 0 then .zero s else .finite s n u (Nat.pos_of_ne_zero h)

theorem StandsFor.half {em : ExtendedMantissa} {y : ℚ} (h : StandsFor em y) :
    (em.roundedMantissa : ℚ) - 1 / 2 ≤ y ∧ y ≤ em.roundedMantissa + 1 / 2 := by
  obtain ⟨m, round, sticky⟩ := em
  have hparity : ((m % 2 : ℕ) : ℚ) = 0 ∨ ((m % 2 : ℕ) : ℚ) = 1 := by
    rcases Nat.mod_two_eq_zero_or_one m with h | h <;> simp [h]
  cases round <;> cases sticky <;>
    simp only [StandsFor] at h <;>
    simp only [ExtendedMantissa.roundedMantissa, ExtendedMantissa.accuracy,
      Accuracy.roundToNearestEven] <;>
    push_cast
  · constructor <;> linarith
  · constructor <;> linarith
  · rcases hparity with hparity | hparity <;> rw [hparity] <;> constructor <;> linarith
  · constructor <;> linarith

theorem shift_short {n : ℕ} {u : ℤ} (hn : n < 2 ^ 53) (hu : -1074 ≤ u) :
    shiftToTargetExponent Format.binary64 n u .exact = (⟨n, false, false⟩, u) := by
  have hlog : n.log2 ≤ 52 := by
    rcases Nat.eq_zero_or_pos n with rfl | hpos
    · decide
    · exact Nat.lt_succ_iff.mp ((Nat.log2_lt hpos.ne').mpr hn)
  have htarget : Format.binary64.targetExponent (totalExponent n u) ≤ u := by
    rw [targetExponent_eq]
    omega
  have hzero : (Format.binary64.targetExponent (totalExponent n u) - u).toNat = 0 := by omega
  simp only [shiftToTargetExponent, shiftToExponent, hzero, Nat.cast_zero, add_zero]
  rfl

theorem StandsFor.between {m : ℕ} {acc : Accuracy} {y : ℚ}
    (h : StandsFor (.ofMantissaAndAccuracy m acc) y) : (m : ℚ) ≤ y ∧ y < m + 1 := by
  have hmantissa : (ExtendedMantissa.ofMantissaAndAccuracy m acc).mantissa = m := by
    cases acc with
    | exact => rfl
    | inexact o => cases o <;> rfl
  simpa only [hmantissa] using h.floor

-- The target exponent leaves a number below `2 ^ 53`, and `2 ^ 52` at least unless it is subnormal.
theorem scaled_between {m : ℕ} {e t : ℤ} {y : ℚ} (hy : (m : ℚ) ≤ y ∧ y < m + 1)
    (ht : t = max (m.log2 + e - 52) (-1074)) (he : e ≤ t) :
    y * 2 ^ e / 2 ^ t < 2 ^ 53 ∧ (t = -1074 ∨ 2 ^ 52 ≤ y * 2 ^ e / 2 ^ t) := by
  have hpow : (0 : ℚ) < 2 ^ t := zpow_pos two_pos t
  constructor
  · have hnext : (m : ℚ) + 1 ≤ 2 ^ ((m.log2 : ℤ) + 1) := by
      exact_mod_cast Nat.lt_log2_self (n := m)
    have hlt : y * 2 ^ e < 2 ^ ((m.log2 : ℤ) + 1 + e) := by
      rw [zpow_add₀ two_ne_zero]
      exact mul_lt_mul_of_pos_right (hy.2.trans_le hnext) (zpow_pos two_pos e)
    rw [div_lt_iff₀ hpow, ← zpow_natCast, ← zpow_add₀ two_ne_zero]
    exact hlt.trans_le (zpow_le_zpow_right₀ one_le_two (by push_cast; omega))
  · by_cases hsub : t = -1074
    · exact .inl hsub
    · have hm : m ≠ 0 := by
        rintro rfl
        rw [Nat.log2_zero] at ht
        omega
      have hself : (2 : ℚ) ^ (m.log2 : ℤ) ≤ m := by exact_mod_cast Nat.log2_self_le hm
      refine .inr ?_
      rw [le_div_iff₀ hpow, ← zpow_natCast, ← zpow_add₀ two_ne_zero,
        show ((52 : ℕ) : ℤ) + t = m.log2 + e by push_cast; omega, zpow_add₀ two_ne_zero]
      exact mul_le_mul_of_nonneg_right (hself.trans hy.1) (zpow_pos two_pos e).le

section Significand

variable {z : ℚ} {t : ℤ}

theorem near_of_short {n : ℕ} (hn : n < 2 ^ 53) (ht : -1074 ≤ t) (hz : t = -1074 ∨ 2 ^ 52 ≤ z)
    (hlower : (n : ℚ) - 1 / 2 ≤ z) (hupper : z ≤ n + 1 / 2) : Near (z * 2 ^ t) n t where
  lt := hn
  least := ht
  normal := by
    rcases hz with hsub | hnormal
    · exact .inr hsub
    · have hlt : (2 : ℚ) ^ 52 < n + 1 := by linarith
      have hlt : 2 ^ 52 < n + 1 := by exact_mod_cast hlt
      exact .inl (Nat.lt_succ_iff.mp hlt)
  lower := mul_le_mul_of_nonneg_right hlower (zpow_pos two_pos t).le
  upper := mul_le_mul_of_nonneg_right hupper (zpow_pos two_pos t).le

-- A significand that is rounded up to a power of two has one digit less, and a higher exponent.
theorem near_of_carry (ht : -1074 ≤ t) (hlower : (2 : ℚ) ^ 53 - 1 / 2 ≤ z)
    (hupper : z ≤ 2 ^ 53 + 1 / 2) : Near (z * 2 ^ t) (2 ^ 52) (t + 1) := by
  have hpow : (0 : ℚ) < 2 ^ t := zpow_pos two_pos t
  have hdouble : (2 : ℚ) ^ (t + 1) = 2 ^ t * 2 := zpow_add_one₀ two_ne_zero t
  refine ⟨⟨by norm_num, by omega, .inl le_rfl⟩, ?_, ?_⟩
  · rw [hdouble, ← mul_assoc, mul_right_comm]
    refine mul_le_mul_of_nonneg_right ?_ hpow.le
    push_cast
    linarith
  · rw [hdouble, ← mul_assoc, mul_right_comm]
    refine mul_le_mul_of_nonneg_right ?_ hpow.le
    push_cast
    linarith

end Significand

theorem roundWithAccuracy_near {m : ℕ} {e : ℤ} {acc : Accuracy} {y : ℚ} (s : Sign)
    (hy : StandsFor (.ofMantissaAndAccuracy m acc) y)
    (he : e ≤ Format.binary64.targetExponent (totalExponent m e)) :
    ∃ n u, Near (y * 2 ^ e) n u ∧ roundWithAccuracy Format.binary64 s m e acc = signed s n u := by
  obtain ⟨t, ht⟩ : ∃ t, Format.binary64.targetExponent (totalExponent m e) = t := ⟨_, rfl⟩
  have htarget : t = max (m.log2 + e - 52) (-1074) := by rw [← ht, targetExponent_eq]
  have hleast : -1074 ≤ t := by omega
  rw [ht] at he
  obtain ⟨em, hshift, hem⟩ := shift_standsFor hy ht he
  obtain ⟨hlower, hupper⟩ := hem.half
  obtain ⟨hbelow, habove⟩ := scaled_between hy.between htarget he
  have hvalue : y * 2 ^ e / 2 ^ t * 2 ^ t = y * 2 ^ e :=
    div_mul_cancel₀ _ (zpow_pos two_pos t).ne'
  rw [← hvalue]
  rcases Nat.lt_or_ge em.roundedMantissa (2 ^ 53) with hshort | hlong
  · refine ⟨em.roundedMantissa, t, near_of_short hshort hleast habove hlower hupper, ?_⟩
    simp only [roundWithAccuracy, hshift, shift_short hshort hleast, signed]
  · have hrounded : em.roundedMantissa = 2 ^ 53 := by
      have hlt : (em.roundedMantissa : ℚ) < 2 ^ 53 + 1 := by linarith
      have hlt : em.roundedMantissa < 2 ^ 53 + 1 := by exact_mod_cast hlt
      omega
    rw [hrounded] at hlower hupper
    push_cast at hlower hupper
    refine ⟨2 ^ 52, t + 1, near_of_carry hleast hlower hupper, ?_⟩
    simp only [roundWithAccuracy, hshift, hrounded, shift_overflow hleast, signed]

theorem shiftLeft_mul_zpow (m k : ℕ) {e t : ℤ} (h : e = k + t) :
    ((m <<< k : ℕ) : ℚ) * 2 ^ t = m * 2 ^ e := by
  rw [Nat.shiftLeft_eq, Nat.cast_mul, Nat.cast_pow, Nat.cast_ofNat, mul_assoc, ← zpow_natCast,
    ← zpow_add₀ two_ne_zero, h]

theorem round_near {m : ℕ} (s : Sign) (hm : m ≠ 0) (e : ℤ) :
    ∃ n u, Near (m * 2 ^ e) n u ∧ UnpackedFloat.round Format.binary64 s m e = signed s n u := by
  obtain ⟨t, ht⟩ : ∃ t, Format.binary64.targetExponent (totalExponent m e) = t := ⟨_, rfl⟩
  obtain ⟨k, hk⟩ : ∃ k, (e - t).toNat = k := ⟨_, rfl⟩
  have hlog : (m <<< k).log2 = m.log2 + k := by
    rw [Nat.shiftLeft_eq, Nat.log2_eq_iff (by positivity)]
    constructor
    · rw [pow_add]
      exact Nat.mul_le_mul_right _ (Nat.log2_self_le hm)
    · rw [add_right_comm, pow_add]
      exact Nat.mul_lt_mul_of_pos_right Nat.lt_log2_self (by positivity)
  have he : e - k ≤ Format.binary64.targetExponent (totalExponent (m <<< k) (e - k)) := by
    rw [targetExponent_eq] at ht ⊢
    rw [hlog]
    push_cast
    omega
  have hvalue : ((m <<< k : ℕ) : ℚ) * 2 ^ (e - k) = m * 2 ^ e := shiftLeft_mul_zpow m k (by omega)
  obtain ⟨n, u, hnear, hround⟩ := roundWithAccuracy_near s (standsFor_exact (m <<< k)) he
  refine ⟨n, u, hvalue ▸ hnear, ?_⟩
  simp only [UnpackedFloat.round, ht, decreaseExponent, hk]
  exact hround

section Bounds

variable {v : ℚ} {n : ℕ} {u k : ℤ}

theorem exists_multiple (h : u ≤ k) : ∃ N : ℕ, (2 : ℚ) ^ k = N * 2 ^ u := by
  refine ⟨2 ^ (k - u).toNat, ?_⟩
  rw [Nat.cast_pow, Nat.cast_ofNat, ← zpow_natCast, ← zpow_add₀ two_ne_zero]
  congr 1
  omega

theorem Fits.beyond (h : Fits n u) (hk : -1074 ≤ k) (hlt : (2 : ℚ) ^ k < n * 2 ^ u) :
    (2 : ℚ) ^ k ≤ (n - 1) * 2 ^ u := by
  have hpow : (0 : ℚ) < 2 ^ u := zpow_pos two_pos u
  rcases le_or_gt u k with hle | hgt
  · obtain ⟨N, hN⟩ := exists_multiple hle
    rw [hN] at hlt ⊢
    have hcast : (N : ℚ) + 1 ≤ n := by exact_mod_cast lt_of_mul_lt_mul_right hlt hpow.le
    exact mul_le_mul_of_nonneg_right (by linarith) hpow.le
  · have hnormal : 2 ^ 52 ≤ n := h.normal.resolve_right (by omega)
    have hcast : (2 : ℚ) ≤ n := by exact_mod_cast (by omega : 2 ≤ n)
    calc (2 : ℚ) ^ k ≤ 1 * 2 ^ u := by
          rw [one_mul]
          exact zpow_le_zpow_right₀ one_le_two hgt.le
      _ ≤ (n - 1) * 2 ^ u := mul_le_mul_of_nonneg_right (by linarith) hpow.le

theorem Fits.below (h : Fits n u) (hk : -1074 ≤ k) (hlt : (n : ℚ) * 2 ^ u < 2 ^ k) :
    ((n : ℚ) + 1) * 2 ^ u ≤ 2 ^ k := by
  have hpow : (0 : ℚ) < 2 ^ u := zpow_pos two_pos u
  rcases le_or_gt u k with hle | hgt
  · obtain ⟨N, hN⟩ := exists_multiple hle
    rw [hN] at hlt ⊢
    have hcast : (n : ℚ) + 1 ≤ N := by exact_mod_cast lt_of_mul_lt_mul_right hlt hpow.le
    exact mul_le_mul_of_nonneg_right hcast hpow.le
  · have hnormal : 2 ^ 52 ≤ n := h.normal.resolve_right (by omega)
    have hcast : (1 : ℚ) ≤ n := by exact_mod_cast (by omega : 1 ≤ n)
    have hunit : (2 : ℚ) ^ k ≤ n * 2 ^ u :=
      (zpow_le_zpow_right₀ one_le_two hgt.le).trans (le_mul_of_one_le_left hpow.le hcast)
    exact absurd hlt hunit.not_gt

-- Rounding does not cross a power of two.
theorem Near.le_pow (h : Near v n u) (hk : -1074 ≤ k) (hv : v ≤ 2 ^ k) : n * 2 ^ u ≤ (2 : ℚ) ^ k := by
  have hpow : (0 : ℚ) < 2 ^ u := zpow_pos two_pos u
  by_contra hlt
  have hbeyond := h.beyond hk (not_le.mp hlt)
  have hlower := h.lower
  linarith

theorem Near.pow_le (h : Near v n u) (hk : -1074 ≤ k) (hv : 2 ^ k ≤ v) : (2 : ℚ) ^ k ≤ n * 2 ^ u := by
  have hpow : (0 : ℚ) < 2 ^ u := zpow_pos two_pos u
  by_contra hlt
  have hbelow := h.below hk (not_le.mp hlt)
  have hupper := h.upper
  linarith

-- What is added to so large a number is less than half a unit of it, and has no effect.
theorem Near.absorb (h : Near v n u) (hk : -1074 ≤ k) (hv : v ≤ 2 ^ (k + 54) + 2 ^ k) :
    n * 2 ^ u ≤ (2 : ℚ) ^ (k + 54) := by
  by_contra hlt
  have hbeyond := h.beyond (by omega) (not_le.mp hlt)
  have hlower := h.lower
  have hunit : k + 2 ≤ u := by
    have hn : (n : ℚ) * 2 ^ u < 2 ^ (53 + u) := by
      rw [zpow_add₀ two_ne_zero]
      exact mul_lt_mul_of_pos_right (by exact_mod_cast h.lt) (zpow_pos two_pos u)
    have := (zpow_lt_zpow_iff_right₀ one_lt_two).mp ((not_le.mp hlt).trans hn)
    omega
  have hsmall : (2 : ℚ) ^ k * 4 ≤ 2 ^ u := by
    calc (2 : ℚ) ^ k * 4 = 2 ^ (k + 2) := by rw [zpow_add₀ two_ne_zero]; norm_num
      _ ≤ 2 ^ u := zpow_le_zpow_right₀ one_le_two hunit
  have hpow : (0 : ℚ) < 2 ^ k := zpow_pos two_pos k
  linarith

end Bounds

def decoded (x : Binary64) : UnpackedFloat :=
  x.toFloat.toModel.unpack

def repack (f : UnpackedFloat) : UnpackedFloat :=
  (Float.Model.pack f).unpack

def sgn : Sign → ℚ
  | .positive => 1
  | .negative => -1

-- A finite number of the format stands for a rational one.
def Shows (f : UnpackedFloat) (v : ℚ) : Prop :=
  ∃ s n u, Fits n u ∧ u ≤ 971 ∧ f = signed s n u ∧ v = sgn s * (n * 2 ^ u)

theorem repack_zero (s : Sign) : repack (.zero s) = .zero s := by
  cases s <;> rfl

theorem repack_infinity (s : Sign) : repack (.infinity s) = .infinity s :=
  unpack_packedInfinity s

theorem repack_signed {s : Sign} {n : ℕ} {u : ℤ} (h : Fits n u) (hu : u ≤ 971) :
    repack (signed s n u) = signed s n u := by
  unfold signed
  split
  · exact repack_zero s
  · rename_i hn
    have hc : Canonical n u := ⟨Nat.pos_of_ne_zero hn, h.lt, h.least, hu, h.normal⟩
    rcases Nat.lt_or_ge n (2 ^ 52) with hsub | hnormal
    · exact unpack_pack_subnormal hc hsub
    · exact unpack_pack hc hnormal

theorem signed_of_pos {s : Sign} {n : ℕ} {u : ℤ} (h : 0 < n) : signed s n u = .finite s n u h :=
  dif_neg h.ne'

theorem unpack_signed {bits : BitVec 64} (h : (@unpackExponent Format.binary64 bits).toNat < 2047) :
    ∃ n u, Fits n u ∧ u ≤ 971 ∧ UnpackedFloat.unpack Format.binary64 bits =
      signed (.ofBitVec (@unpackSign Format.binary64 bits)) n u := by
  obtain ⟨e, he⟩ : ∃ e, @unpackExponent Format.binary64 bits = e := ⟨_, rfl⟩
  obtain ⟨m, hm⟩ : ∃ m, @unpackMantissa Format.binary64 bits = m := ⟨_, rfl⟩
  rw [he] at h
  have hones : e ≠ -1#11 := by
    rintro rfl
    exact absurd h (by decide)
  have hshort : m.toNat < 2 ^ 52 := m.isLt
  unfold UnpackedFloat.unpack
  simp only [he, hm, hones, if_false]
  split
  · rename_i hzeros
    split
    · exact ⟨0, -1074, ⟨by norm_num, le_rfl, .inr rfl⟩, by norm_num, rfl⟩
    · rename_i hfraction
      have hpos : 0 < m.toNat := by
        rw [Nat.pos_iff_ne_zero]
        exact fun hzero => hfraction (BitVec.eq_of_toNat_eq hzero)
      refine ⟨m.toNat, -1074, ⟨by omega, le_rfl, .inr rfl⟩, by norm_num, ?_⟩
      rw [signed_of_pos hpos, hzeros]
      rfl
  · rename_i hzeros
    have hleast : e.toNat ≠ 0 := fun hzero => hzeros (BitVec.eq_of_toNat_eq hzero)
    have hmantissa : (1#1 ++ m).toNat = 2 ^ 52 + m.toNat := by
      rw [BitVec.toNat_append, ← Nat.shiftLeft_add_eq_or_of_lt hshort, Nat.shiftLeft_eq]
      rfl
    refine ⟨(1#1 ++ m).toNat, e.toNat - 1075, ⟨by omega, by omega, .inl (by omega)⟩,
      by omega, ?_⟩
    rw [signed_of_pos (by omega)]
    rfl

theorem ofBitVec_unpackSign (x : Binary64) :
    Sign.ofBitVec (@unpackSign Format.binary64 x.bits.toBitVec) =
      if x.isNegative then .negative else .positive := by
  have hbit : (@unpackSign Format.binary64 x.bits.toBitVec).toNat = x.bits.toNat / 2 ^ 63 % 2 := by
    rw [unpackSign_def, BitVec.extractLsb'_toNat, Nat.shiftRight_eq_div_pow]
    rfl
  have hlt := x.bits.toNat_lt
  by_cases hneg : x.isNegative = true
  · rw [if_pos hneg]
    refine if_neg fun hzero => ?_
    have hhigh := x.isNegative_iff.mp hneg
    rw [hzero] at hbit
    change 0 = x.bits.toNat / 2 ^ 63 % 2 at hbit
    omega
  · rw [if_neg hneg]
    have hlow := mt x.isNegative_iff.mpr hneg
    refine if_pos (BitVec.eq_of_toNat_eq ?_)
    rw [hbit]
    change x.bits.toNat / 2 ^ 63 % 2 = 0
    omega

theorem toNat_unpackExponent_lt {x : Binary64} (h : x.isFinite = true) :
    (@unpackExponent Format.binary64 x.bits.toBitVec).toNat < 2047 := by
  have hbelow : (@unpackExponent Format.binary64 x.bits.toBitVec).toNat < 2 ^ 11 := BitVec.isLt _
  have hne : x.biasedExponent ≠ 2047 := by simpa [isFinite] using h
  rw [← toNat_unpackExponent x] at hne
  omega

theorem decoded_eq_unpack {x : Binary64} (h : x.isFinite = true) :
    x.decoded = UnpackedFloat.unpack Format.binary64 x.bits.toBitVec := by
  obtain ⟨n, u, hfits, hu, hunpack⟩ := unpack_signed (toNat_unpackExponent_lt h)
  change repack (UnpackedFloat.unpack Format.binary64 x.bits.toBitVec) = _
  rw [hunpack, repack_signed hfits hu]

theorem decoded_signed {x : Binary64} (h : x.isFinite = true) : ∃ n u, Fits n u ∧ u ≤ 971 ∧
    x.decoded = signed (.ofBitVec (@unpackSign Format.binary64 x.bits.toBitVec)) n u := by
  rw [decoded_eq_unpack h]
  exact unpack_signed (toNat_unpackExponent_lt h)

theorem shows_decoded {x : Binary64} (h : x.isFinite = true) : ∃ v, Shows x.decoded v := by
  obtain ⟨n, u, hfits, hu, hdecoded⟩ := decoded_signed h
  exact ⟨_, _, n, u, hfits, hu, hdecoded, rfl⟩

theorem isFinite_of_shows {x : Binary64} {v : ℚ} (h : Shows x.decoded v) : x.isFinite = true := by
  by_contra hinf
  obtain ⟨s, n, u, -, -, hdecoded, -⟩ := h
  unfold signed at hdecoded
  rcases unpack_toFloat_of_not_isFinite (Bool.eq_false_iff.mpr hinf) with hnan | ⟨t, ht⟩
  · rw [decoded, hnan] at hdecoded
    split at hdecoded <;> cases hdecoded
  · rw [decoded, ht] at hdecoded
    split at hdecoded <;> cases hdecoded

end StatsDaemon.Binary64
