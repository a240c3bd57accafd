import StatsDaemon.Proofs.Binary64.Bounds

namespace StatsDaemon.Binary64

open Float.Model Float.Model.UnpackedFloat

variable {x : Binary64} {v : ℚ}

theorem isNegative_of_pos (h : Shows x.decoded v) (hv : 0 < v) : x.isNegative = false := by
  by_contra hneg
  obtain ⟨n, u, hfits, hu, hdecoded⟩ := decoded_signed (isFinite_of_shows h)
  rw [ofBitVec_unpackSign, if_pos (Bool.of_not_eq_false hneg)] at hdecoded
  obtain rfl := h.unique ⟨.negative, n, u, hfits, hu, hdecoded, rfl⟩
  have hunit : (0 : ℚ) ≤ n * 2 ^ u := by positivity
  rw [sgn] at hv
  linarith

theorem shows_significand (hx : x.isFinite = true) (hsign : x.isNegative = false) :
    Shows x.decoded (x.significand * 2 ^ x.unit) := by
  have habs := abs_of_not_isNegative hsign
  cases hzero : x.isZero with
  | true =>
    have hsignificand : x.significand = 0 := by
      simp only [isZero, Bool.and_eq_true, beq_iff_eq] at hzero
      rw [significand, if_pos hzero.1, hzero.2]
    rw [hsignificand, Nat.cast_zero, zero_mul, ← habs, abs_of_isZero x hzero, decoded, unpack_zero]
    exact shows_zero _
  | false =>
    have hc := x.canonical_of_finite hx hzero
    have hfits : Fits x.significand x.unit := ⟨hc.lt, hc.least, hc.normal⟩
    have hdecoded : x.decoded = repack (repack (signed .positive x.significand x.unit)) := by
      rw [signed_of_pos hc.pos]
      exact congrArg decoded (habs.symm.trans (x.pack_significand hc).symm)
    rw [repack_signed hfits hc.most, repack_signed hfits hc.most] at hdecoded
    exact ⟨.positive, _, _, hfits, hc.most, hdecoded, by rw [sgn, one_mul]⟩

theorem roundMagnitude_eq (x : Binary64) :
    x.roundMagnitude = ⌊(x.significand : ℚ) * 2 ^ x.unit + 1 / 2⌋₊ := by
  unfold roundMagnitude
  split
  · rename_i n hunit
    rw [hunit, Nat.pow_eq]
    refine ((Nat.floor_eq_iff (by positivity)).mpr ?_).symm
    push_cast
    rw [Int.ofNat_eq_natCast, zpow_natCast]
    constructor <;> linarith
  · rename_i n hunit
    have hhalf : (x.significand : ℚ) * 2 ^ x.unit + 1 / 2 =
        ((x.significand + 2 ^ n : ℕ) : ℚ) / ((2 ^ (n + 1) : ℕ) : ℚ) := by
      rw [hunit, zpow_negSucc]
      push_cast
      rw [pow_succ]
      field_simp
    rw [hhalf, Nat.floor_div_eq_div]
    rfl

theorem roundToCount_eq (h : Shows x.decoded v) (hv : 0 < v) (hmost : v < 2 ^ 63) :
    x.roundToCount = ⌊v + 1 / 2⌋₊ := by
  have hfinite := isFinite_of_shows h
  have hsign := isNegative_of_pos h hv
  obtain rfl := h.unique (shows_significand hfinite hsign)
  have hle : x.roundMagnitude ≤ maxCount := by
    rw [roundMagnitude_eq]
    refine Nat.floor_le_of_le ?_
    rw [maxCount]
    norm_num at hmost ⊢
    linarith
  rw [roundToCount, isNaN_of_isFinite hfinite, hsign, hfinite, if_neg Bool.false_ne_true,
    if_neg Bool.false_ne_true, if_pos rfl, min_eq_left hle, roundMagnitude_eq]

theorem shows_ofNat {n : ℕ} (h : n < 2 ^ 53) : Shows (ofNat n).decoded n := by
  rcases Nat.eq_zero_or_pos n with rfl | hpos
  · change Shows (0 : Binary64).decoded _
    rw [decoded, unpack_zero, Nat.cast_zero]
    exact shows_zero _
  · obtain ⟨a, u, hc, hwide, hvalue, hunpack⟩ := unpack_toFloat hpos.ne' h
    have hfast : Float.ofScientific n false 0 =
        n.toUInt64.toFloat * Float.ofBits 0x3ff0000000000000 := by
      rw [Float.ofScientific, dif_pos ⟨h, by norm_num⟩]
      rfl
    have hproduct : UnpackedFloat.mul Format.binary64 (.finite .positive a u hc.pos)
        (.finite .positive (2 ^ 52) (-52) (by norm_num)) = .finite .positive a u hc.pos := by
      refine mul_eq _ _ (hwide.trans (Nat.le_mul_of_pos_right a (by norm_num))) hc ?_
      have hone : ((2 ^ 52 : ℕ) : ℚ) * 2 ^ (-52 : ℤ) = 1 := by norm_num
      rw [hone, mul_one]
      exact roundsTo_self a u
    have hdecoded : (ofNat n).decoded = repack (repack (signed .positive a u)) := by
      change (ofFloat (Float.ofScientific n false 0)).decoded = _
      rw [hfast, signed_of_pos hc.pos, ← hproduct, ← hunpack]
      rfl
    have hfits : Fits a u := ⟨hc.lt, hc.least, hc.normal⟩
    rw [repack_signed hfits hc.most, repack_signed hfits hc.most] at hdecoded
    exact ⟨.positive, a, u, hfits, hc.most, hdecoded, by rw [sgn, one_mul, hvalue]⟩

theorem Settles.shows (h : Settles x.decoded v) (hv : 0 < v) {k : ℤ} (hleast : -1074 ≤ k)
    (hk : k ≤ 1023) (hle : v ≤ 2 ^ k) :
    ∃ n u, Near v n u ∧ Shows x.decoded (n * 2 ^ u) := by
  obtain ⟨s, n, u, hnear, hsign, hdecoded⟩ := h
  obtain rfl := sign_eq hv hsign
  rw [abs_of_pos hv] at hnear
  have hu : u ≤ 971 := hnear.unit_le hk (hnear.le_pow hleast hle)
  rw [if_pos hu] at hdecoded
  exact ⟨n, u, hnear, .positive, n, u, hnear.toFits, hu, hdecoded, by rw [sgn, one_mul]⟩

theorem Near.error {n : ℕ} {u k : ℤ} (h : Near v n u) (hk : -1022 ≤ k) (hv : v ≤ 2 ^ k) :
    |(n : ℚ) * 2 ^ u - v| ≤ 2 ^ (k - 53) := by
  have hunit : u - 1 ≤ k - 53 := by
    rcases h.normal with hwide | hsub
    · have hle : (2 : ℚ) ^ (52 + u) ≤ 2 ^ k := by
        rw [zpow_add₀ two_ne_zero]
        refine le_trans (mul_le_mul_of_nonneg_right ?_ (zpow_pos two_pos u).le)
          (h.le_pow (by omega) hv)
        exact_mod_cast hwide
      have := (zpow_le_zpow_iff_right₀ one_lt_two).mp hle
      omega
    · omega
  have hhalf : (2 : ℚ) ^ u = 2 * 2 ^ (u - 1) := by
    rw [zpow_sub_one₀ two_ne_zero]
    ring
  have hpow := zpow_le_zpow_right₀ (one_le_two : (1 : ℚ) ≤ 2) hunit
  have hlower := h.lower
  have hupper := h.upper
  rw [hhalf] at hlower hupper ⊢
  rw [abs_le]
  constructor <;> linarith

-- A number that is less than a part in `2 ^ 54` below a half is rounded to no less than this half.
theorem Near.half_le {n r : ℕ} {u : ℤ} (h : Near v n u) (hr : r < 2 ^ 52)
    (hv : ((r : ℚ) + 1 / 2) * (1 - 1 / 2 ^ 54) < v) : (r : ℚ) + 1 / 2 ≤ n * 2 ^ u := by
  have hpow : (0 : ℚ) < 2 ^ u := zpow_pos two_pos u
  by_contra hlt
  rw [not_le] at hlt
  -- Doubles of a half or more as their unit have the half among them.
  obtain ⟨N, hN⟩ : ∃ N : ℕ, (r : ℚ) + 1 / 2 = N * 2 ^ u := by
    rcases le_or_gt u (-1) with hle | hgt
    · obtain ⟨M, hM⟩ := exists_multiple hle
      refine ⟨(2 * r + 1) * M, ?_⟩
      push_cast
      rw [mul_assoc, ← hM]
      norm_num
      ring
    · have hwide : 2 ^ 52 ≤ n := h.normal.resolve_right (by omega)
      have hone : (1 : ℚ) ≤ 2 ^ u := one_le_zpow₀ one_le_two (by omega)
      have hrQ : (r : ℚ) + 1 ≤ 2 ^ 52 := by exact_mod_cast hr
      have hnQ : (2 : ℚ) ^ 52 ≤ n := by exact_mod_cast hwide
      have hle : (n : ℚ) ≤ n * 2 ^ u := le_mul_of_one_le_right (Nat.cast_nonneg n) hone
      linarith
  rw [hN] at hv hlt
  have hnext : (n : ℚ) + 1 ≤ N := by exact_mod_cast lt_of_mul_lt_mul_right hlt hpow.le
  have hshort : (n : ℚ) + 1 ≤ 2 ^ 53 := by exact_mod_cast h.lt
  have hbelow : (N : ℚ) * (1 - 1 / 2 ^ 54) < n + 1 / 2 := by
    have hv' : (N : ℚ) * (1 - 1 / 2 ^ 54) * 2 ^ u < (n + 1 / 2) * 2 ^ u := by
      rw [mul_right_comm]
      exact hv.trans_le h.upper
    exact lt_of_mul_lt_mul_right hv' hpow.le
  have hscaled : ((n : ℚ) + 1) * (1 - 1 / 2 ^ 54) ≤ N * (1 - 1 / 2 ^ 54) :=
    mul_le_mul_of_nonneg_right hnext (by norm_num)
  norm_num at hbelow hscaled hshort
  linarith

end StatsDaemon.Binary64
