import StatsDaemon.Decimal.Reading
import StatsDaemon.Proofs.Binary64.Packing

namespace StatsDaemon.Binary64

open Float.Model Float.Model.UnpackedFloat

theorem le_targetExponent {m : ℕ} {e : ℤ} (hm : 2 ^ 52 ≤ m) :
    e ≤ Format.binary64.targetExponent (totalExponent m e) := by
  have hlog : 52 ≤ m.log2 := (Nat.le_log2 (by omega)).mpr hm
  rw [targetExponent_eq]
  omega

theorem mul_eq {a b n : ℕ} {e f u : ℤ} (ha : 0 < a) (hb : 0 < b) (hwide : 2 ^ 52 ≤ a * b)
    (hc : Canonical n u) (hv : RoundsTo (a * 2 ^ e * (b * 2 ^ f)) n u) :
    UnpackedFloat.mul Format.binary64 (.finite .positive a e ha) (.finite .positive b f hb) =
      .finite .positive n u hc.pos := by
  have hvalue : ((a * b : ℕ) : ℚ) * 2 ^ (e + f) = a * 2 ^ e * (b * 2 ^ f) := by
    rw [zpow_add₀ two_ne_zero]
    push_cast
    ring
  exact roundWithAccuracy_eq .positive (standsFor_exact (a * b)) (le_targetExponent hwide) hc
    (hvalue ▸ hv)

theorem pow_le_quotient {a b : ℕ} (e f : ℤ) (ha : 0 < a) (hb : 0 < b) :
    (2 : ℚ) ^ ((a.log2 : ℤ) + e - b.log2 - f - 1) ≤ a * 2 ^ e / (b * 2 ^ f) := by
  have hself : (2 : ℚ) ^ (a.log2 : ℤ) ≤ a := by exact_mod_cast Nat.log2_self_le ha.ne'
  have hnext : (b : ℚ) ≤ 2 ^ ((b.log2 : ℤ) + 1) := by
    exact_mod_cast (Nat.lt_log2_self (n := b)).le
  have hpos : (0 : ℚ) < b * 2 ^ f := mul_pos (by exact_mod_cast hb) (zpow_pos two_pos f)
  rw [le_div_iff₀ hpos]
  calc (2 : ℚ) ^ ((a.log2 : ℤ) + e - b.log2 - f - 1) * (b * 2 ^ f)
      ≤ 2 ^ ((a.log2 : ℤ) + e - b.log2 - f - 1) * (2 ^ ((b.log2 : ℤ) + 1) * 2 ^ f) := by gcongr
    _ = 2 ^ (a.log2 : ℤ) * 2 ^ e := by
        simp only [← zpow_add₀ (two_ne_zero' ℚ)]
        congr 1
        omega
    _ ≤ a * 2 ^ e := by gcongr

theorem quotient_eq (a b : ℕ) (hb : 0 < b) :
    ((a / b : ℕ) : ℚ) + (a % b : ℕ) / b = a / b := by
  have hb' : (b : ℚ) ≠ 0 := by exact_mod_cast hb.ne'
  rw [eq_div_iff hb', add_mul, div_mul_cancel₀ _ hb']
  exact_mod_cast Nat.div_add_mod' a b

theorem shifted_quotient_eq (a b : ℕ) (e f t : ℤ) (ht : t ≤ e - f) :
    ((a <<< (e - f - t).toNat : ℕ) : ℚ) / b * 2 ^ t = a * 2 ^ e / (b * 2 ^ f) := by
  have hscale : ((a <<< (e - f - t).toNat : ℕ) : ℚ) * 2 ^ t = a * 2 ^ (e - f) := by
    rw [Nat.shiftLeft_eq, Nat.cast_mul, Nat.cast_pow, Nat.cast_ofNat, mul_assoc, ← zpow_natCast,
      ← zpow_add₀ two_ne_zero]
    congr 2
    omega
  rw [div_mul_eq_mul_div, hscale, zpow_sub₀ two_ne_zero]
  field_simp

-- A quotient is cut off where it has digits enough, and what is left tells how to round it.
theorem divCore_standsFor {a b : ℕ} (e f : ℤ) (ha : 0 < a) (hb : 0 < b) :
    ∃ q t acc y, divCore Format.binary64 a e b f = (q, t, acc) ∧
      StandsFor (.ofMantissaAndAccuracy q acc) y ∧ y * 2 ^ t = a * 2 ^ e / (b * 2 ^ f) ∧
      t ≤ Format.binary64.targetExponent (totalExponent q t) := by
  let t := min (e - f) (Format.binary64.targetExponent (totalExponent a e - totalExponent b f))
  let q := a <<< (e - f - t).toNat
  have hvalue : (((q / b : ℕ) : ℚ) + (q % b : ℕ) / b) * 2 ^ t = a * 2 ^ e / (b * 2 ^ f) := by
    rw [quotient_eq q b hb]
    exact shifted_quotient_eq a b e f t (min_le_left _ _)
  have hnext : ((q / b : ℕ) : ℚ) + (q % b : ℕ) / b < (q / b : ℕ) + 1 := by
    have hmod : ((q % b : ℕ) : ℚ) / b < 1 := by
      rw [div_lt_one (by exact_mod_cast hb)]
      exact_mod_cast Nat.mod_lt q hb
    linarith
  refine ⟨q / b, t, accuracyOfFraction (q % b) b, _, rfl,
    standsFor_fraction _ _ _ (Nat.mod_lt q hb), hvalue, ?_⟩
  have hlog := le_log2_of_lt hnext (hvalue ▸ pow_le_quotient e f ha hb)
  have hmin : t ≤ Format.binary64.targetExponent (totalExponent a e - totalExponent b f) :=
    min_le_right _ _
  simp only [Format.targetExponent, totalExponent, Format.mantissaBits,
    Format.minExponent] at hmin
  norm_num at hmin
  rw [targetExponent_eq]
  omega

theorem div_eq {a b n : ℕ} {e f u : ℤ} (ha : 0 < a) (hb : 0 < b) (hc : Canonical n u)
    (hv : RoundsTo (a * 2 ^ e / (b * 2 ^ f)) n u) :
    UnpackedFloat.div Format.binary64 (.finite .positive a e ha) (.finite .positive b f hb) =
      .finite .positive n u hc.pos := by
  obtain ⟨q, t, acc, y, hcore, hy, hvalue, ht⟩ := divCore_standsFor e f ha hb
  simp only [UnpackedFloat.div, hcore]
  exact roundWithAccuracy_eq .positive hy ht hc (hvalue ▸ hv)

theorem RoundsTo.pow_le {v : ℚ} {n : ℕ} {u : ℤ} (hv : RoundsTo v n u) (hc : Canonical n u) :
    2 ^ (u - 1) ≤ v := by
  have hn : (1 : ℚ) ≤ n := by exact_mod_cast hc.pos
  refine le_trans ?_ hv.lower
  rw [zpow_sub_one₀ two_ne_zero, mul_comm]
  refine mul_le_mul_of_nonneg_right ?_ (zpow_pos two_pos u).le
  split <;> linarith

theorem exponent_bounds {m n : ℕ} {e u : ℤ} (hm : m ≠ 0) (hc : Canonical n u)
    (hv : RoundsTo (m * 10 ^ e) n u) : e < 1024 ∧ -1076 - m.log2 < e := by
  have hone : (1 : ℚ) ≤ m := by exact_mod_cast Nat.one_le_iff_ne_zero.mpr hm
  have hmost := hc.most
  have hleast := hc.least
  constructor
  · by_contra hge
    have hpow : (2 : ℚ) ^ e ≤ m * 10 ^ e :=
      calc (2 : ℚ) ^ e ≤ 10 ^ e := zpow_le_zpow_left₀ (by omega) (by norm_num) (by norm_num)
        _ ≤ m * 10 ^ e := le_mul_of_one_le_left (by positivity) hone
    have := (zpow_lt_zpow_iff_right₀ one_lt_two).mp (hpow.trans_lt (hv.lt_pow hc))
    omega
  · by_contra hle
    have hnext : (m : ℚ) < 2 ^ ((m.log2 : ℤ) + 1) := by exact_mod_cast Nat.lt_log2_self (n := m)
    have hpow : (m : ℚ) * 10 ^ e < 2 ^ ((m.log2 : ℤ) + 1 + e) := by
      rw [zpow_add₀ two_ne_zero]
      refine mul_lt_mul hnext ?_ (by positivity) (by positivity)
      have hinv : (2 : ℚ) ^ (-e) ≤ 10 ^ (-e) :=
        zpow_le_zpow_left₀ (by omega) (by norm_num) (by norm_num)
      rw [zpow_neg, zpow_neg] at hinv
      exact (inv_le_inv₀ (by positivity) (by positivity)).mp hinv
    have := (zpow_lt_zpow_iff_right₀ one_lt_two).mp ((hv.pow_le hc).trans_lt hpow)
    omega

theorem ofScientific_eq {m n : ℕ} {e u : ℤ} (hm : m ≠ 0) (hc : Canonical n u)
    (hv : RoundsTo (m * 10 ^ e) n u) :
    UnpackedFloat.ofScientific Format.binary64 m e = .finite .positive n u hc.pos := by
  obtain ⟨hmost, hleast⟩ := exponent_bounds hm hc hv
  have htop : ¬ e > 2 ^ Format.binary64.exponentBits := by
    norm_num
    omega
  have hbottom : ¬ e < -((2 ^ Format.binary64.exponentBits : ℤ) + m.log2) := by
    norm_num
    omega
  rw [UnpackedFloat.ofScientific, dif_neg hm, if_neg htop, if_neg hbottom]
  split
  · rename_i hnonneg
    have hvalue : (m : ℚ) * (10 : ℚ) ^ e =
        (m <<< 53 : ℕ) * (2 : ℚ) ^ (-53 : ℤ) * ((10 ^ e.toNat : ℕ) * (2 : ℚ) ^ (0 : ℤ)) := by
      have hpow : ((10 ^ e.toNat : ℕ) : ℚ) = 10 ^ e := by
        rw [Nat.cast_pow, Nat.cast_ofNat, ← zpow_natCast, Int.toNat_of_nonneg hnonneg]
      have hscale : ((m <<< 53 : ℕ) : ℚ) * 2 ^ (-53 : ℤ) = m := by
        rw [Nat.shiftLeft_eq]
        push_cast
        norm_num [mul_assoc]
      rw [hpow, hscale, zpow_zero, mul_one]
    have hwide : 2 ^ 52 ≤ m <<< 53 * 10 ^ e.toNat := by
      have hshift : 2 ^ 52 ≤ m <<< 53 := by
        rw [Nat.shiftLeft_eq]
        omega
      exact hshift.trans (Nat.le_mul_of_pos_right _ (by positivity))
    rw [hvalue] at hv
    exact mul_eq _ _ hwide hc hv
  · rename_i hneg
    have hvalue : (m : ℚ) * (10 : ℚ) ^ e =
        m * (2 : ℚ) ^ (0 : ℤ) / ((10 ^ (-e).toNat : ℕ) * (2 : ℚ) ^ (0 : ℤ)) := by
      have hpow : ((10 ^ (-e).toNat : ℕ) : ℚ) = 10 ^ (-e) := by
        rw [Nat.cast_pow, Nat.cast_ofNat, ← zpow_natCast, Int.toNat_of_nonneg (by omega)]
      rw [hpow, zpow_zero, mul_one, mul_one, zpow_neg, div_inv_eq_mul]
    rw [hvalue] at hv
    exact div_eq _ _ hc hv

def IsWhole (f : Float) (n : ℕ) : Prop :=
  ∃ a e, ∃ h : 0 < a, f.toModel.unpack = .finite .positive a e h ∧ 2 ^ 52 ≤ a ∧
    (a : ℚ) * 2 ^ e = n

theorem roundsTo_self (n : ℕ) (u : ℤ) : RoundsTo (n * 2 ^ u) n u := by
  have hpow : (0 : ℚ) < 2 ^ u := zpow_pos two_pos u
  refine ⟨?_, ?_, fun _ => ⟨?_, ?_⟩⟩
  · refine mul_le_mul_of_nonneg_right ?_ hpow.le
    split <;> linarith
  · exact mul_le_mul_of_nonneg_right (by linarith) hpow.le
  · exact mul_lt_mul_of_pos_right (by linarith) hpow
  · exact mul_lt_mul_of_pos_right (by linarith) hpow

theorem round_whole {m : ℕ} (hm : m ≠ 0) (hlt : m < 2 ^ 53) :
    ∃ a u, ∃ hc : Canonical a u, 2 ^ 52 ≤ a ∧ (a : ℚ) * 2 ^ u = m ∧
      UnpackedFloat.round Format.binary64 .positive m 0 = .finite .positive a u hc.pos := by
  have hlog : m.log2 ≤ 52 := Nat.lt_succ_iff.mp ((Nat.log2_lt hm).mpr hlt)
  let k := 52 - m.log2
  have hwide : 2 ^ 52 ≤ m <<< k := by
    rw [Nat.shiftLeft_eq]
    calc 2 ^ 52 = 2 ^ m.log2 * 2 ^ k := by rw [← pow_add]; congr 1; omega
      _ ≤ m * 2 ^ k := Nat.mul_le_mul_right _ (Nat.log2_self_le hm)
  have hshort : m <<< k < 2 ^ 53 := by
    rw [Nat.shiftLeft_eq]
    calc m * 2 ^ k < 2 ^ (m.log2 + 1) * 2 ^ k :=
          Nat.mul_lt_mul_of_pos_right Nat.lt_log2_self (by positivity)
      _ = 2 ^ 53 := by rw [← pow_add]; congr 1; omega
  have hc : Canonical (m <<< k) (-k) :=
    ⟨by omega, hshort, by omega, by omega, .inl hwide⟩
  refine ⟨m <<< k, -k, hc, hwide, ?_, ?_⟩
  · rw [Nat.shiftLeft_eq, Nat.cast_mul, Nat.cast_pow, Nat.cast_ofNat, mul_assoc, ← zpow_natCast,
      ← zpow_add₀ two_ne_zero, add_neg_cancel, zpow_zero, mul_one]
  · have htarget : Format.binary64.targetExponent (totalExponent m 0) = -k := by
      rw [targetExponent_eq]
      omega
    have hshift : (- -(k : ℤ)).toNat = k := by omega
    have he : -(k : ℤ) ≤ Format.binary64.targetExponent (totalExponent (m <<< k) (-k)) :=
      hc.targetExponent.ge
    simp only [UnpackedFloat.round, htarget, decreaseExponent, hshift, zero_sub]
    exact roundWithAccuracy_eq .positive (standsFor_exact _) he hc (roundsTo_self _ _)

theorem unpack_toFloat {m : ℕ} (hm : m ≠ 0) (hlt : m < 2 ^ 53) :
    ∃ a u, ∃ hc : Canonical a u, 2 ^ 52 ≤ a ∧ (a : ℚ) * 2 ^ u = m ∧
      m.toUInt64.toFloat.toModel.unpack = .finite .positive a u hc.pos := by
  obtain ⟨a, u, hc, hwide, hvalue, hround⟩ := round_whole hm hlt
  have hnat : m.toUInt64.toNat = m := Nat.mod_eq_of_lt (by omega)
  have hcompare : compare (m : ℤ) 0 = .gt := by
    rw [compare_gt_iff_gt]
    omega
  have hunpacked : UnpackedFloat.ofUInt64 Format.binary64 m.toUInt64 =
      .finite .positive a u hc.pos := by
    simp only [UnpackedFloat.ofUInt64, UnpackedFloat.ofNat, UnpackedFloat.ofInt, hnat,
      UnpackedFloat.normalize, hcompare, Int.toNat_natCast, hround]
  refine ⟨a, u, hc, hwide, hvalue, ?_⟩
  change (Float.Model.pack (UnpackedFloat.ofUInt64 Format.binary64 m.toUInt64)).unpack = _
  rw [hunpacked]
  exact unpack_pack hc hwide

theorem isWhole_toFloat {m : ℕ} (hm : m ≠ 0) (hlt : m < 2 ^ 53) : IsWhole m.toUInt64.toFloat m := by
  obtain ⟨a, u, hc, hwide, hvalue, hunpack⟩ := unpack_toFloat hm hlt
  exact ⟨a, u, hc.pos, hunpack, hwide, hvalue⟩

def isWhole (f : Float) (n : ℕ) : Bool :=
  match f.toModel.unpack with
  | .finite .positive a e _ => 2 ^ 52 ≤ a && a * 2 ^ e.toNat == n * 2 ^ (-e).toNat
  | _ => false

theorem isWhole_sound {f : Float} {n : ℕ} (h : isWhole f n = true) : IsWhole f n := by
  unfold isWhole at h
  split at h
  · rename_i a e ha hunpack
    simp only [Bool.and_eq_true, decide_eq_true_eq, beq_iff_eq] at h
    refine ⟨a, e, ha, hunpack, h.1, ?_⟩
    have hcast : (a : ℚ) * 2 ^ e.toNat = n * 2 ^ (-e).toNat := by exact_mod_cast h.2
    have hsplit : (2 : ℚ) ^ e * 2 ^ (-e).toNat = 2 ^ e.toNat := by
      rw [← zpow_natCast, ← zpow_natCast, ← zpow_add₀ two_ne_zero]
      congr 1
      omega
    have hpow : (2 : ℚ) ^ (-e).toNat ≠ 0 := by positivity
    rw [← hsplit, ← mul_assoc] at hcast
    exact mul_right_cancel₀ hpow hcast
  · cases h

theorem isWhole_powersOfTen : ∀ k : Fin Float.exactlyRepresentablePowersOfTen.size,
    isWhole Float.exactlyRepresentablePowersOfTen[k.val] (10 ^ k.val) = true := by
  decide +kernel

theorem ofFloat_ofScientific (x : Binary64) (hc : Canonical x.significand x.unit) {m : ℕ} {e : ℤ}
    (hm : m ≠ 0) (hv : RoundsTo (m * 10 ^ e) x.significand x.unit) :
    ofFloat (Float.ofScientific m (e < 0) e.natAbs) = x.abs := by
  suffices hmodel : (Float.ofScientific m (e < 0) e.natAbs).toModel =
      Float.Model.pack (.finite .positive x.significand x.unit hc.pos) by
    rw [← pack_significand x hc, ← hmodel]
  unfold Float.ofScientific
  split
  · rename_i hsmall
    obtain ⟨a, f, ha, hunpack, hwide, hvalue⟩ := isWhole_toFloat hm hsmall.1
    obtain ⟨b, g, hb, hunpack', -, hvalue'⟩ :=
      isWhole_sound (isWhole_powersOfTen ⟨e.natAbs, Nat.lt_succ_of_le hsmall.2⟩)
    have hpow : ((10 ^ e.natAbs : ℕ) : ℚ) = 10 ^ (e.natAbs : ℤ) := by norm_cast
    dsimp only at hvalue'
    rw [hpow] at hvalue'
    rw [← hvalue] at hv
    dsimp only
    split
    · rename_i hneg
      have he : e = -e.natAbs := by
        have : e < 0 := of_decide_eq_true hneg
        omega
      rw [he, zpow_neg, ← hvalue', ← div_eq_mul_inv] at hv
      have hunpacked := congrArg₂ (UnpackedFloat.div Format.binary64) hunpack hunpack'
      exact congrArg Float.Model.pack (hunpacked.trans (div_eq ha hb hc hv))
    · rename_i hnonneg
      have he : e = e.natAbs := by
        have : ¬ e < 0 := fun h => hnonneg (decide_eq_true h)
        omega
      rw [he, ← hvalue'] at hv
      have hunpacked := congrArg₂ (UnpackedFloat.mul Format.binary64) hunpack hunpack'
      have hwider := hwide.trans (Nat.le_mul_of_pos_right a hb)
      exact congrArg Float.Model.pack (hunpacked.trans (mul_eq ha hb hwider hc hv))
  · have he : (if decide (e < 0) = true then Int.negOfNat e.natAbs else Int.ofNat e.natAbs) = e := by
      simp only [decide_eq_true_eq, Int.negOfNat_eq, Int.ofNat_eq_natCast]
      split <;> omega
    change Float.Model.pack (UnpackedFloat.ofScientific Format.binary64 m _) = _
    rw [he, ofScientific_eq hm hc hv]

theorem lt_pow_digits (m : ℕ) : (m : ℚ) < 10 ^ ((Nat.toDigits 10 m).length : ℤ) := by
  exact_mod_cast (Nat.length_toDigits_le_iff (by norm_num) Nat.length_toDigits_pos).mp le_rfl

theorem pow_digits_le {m : ℕ} (hm : m ≠ 0) :
    (10 : ℚ) ^ ((Nat.toDigits 10 m).length - 1 : ℤ) ≤ m := by
  have hpos := Nat.length_toDigits_pos (b := 10) (n := m)
  obtain ⟨k, hk⟩ : ∃ k, (Nat.toDigits 10 m).length = k + 1 := ⟨_, (Nat.sub_add_cancel hpos).symm⟩
  rw [hk]
  push_cast
  rw [add_sub_cancel_right, zpow_natCast]
  rcases Nat.eq_zero_or_pos k with rfl | hkpos
  · exact_mod_cast Nat.one_le_iff_ne_zero.mpr hm
  · have hle : ¬ m < 10 ^ k := fun hlt => by
      have := (Nat.length_toDigits_le_iff (by norm_num : 1 < 10) hkpos).mpr hlt
      omega
    exact_mod_cast Nat.le_of_not_lt hle

theorem vanishing_le : (10 : ℚ) ^ (-330 : ℤ) ≤ 2 ^ (-1075 : ℤ) := by
  have hpow : 2 ^ 1075 ≤ 10 ^ 330 := by decide +kernel
  rw [zpow_neg, zpow_neg]
  refine inv_anti₀ (by positivity) ?_
  exact_mod_cast hpow

theorem le_overflowing : (2 : ℚ) ^ (1024 : ℤ) ≤ 10 ^ (310 : ℤ) := by
  have hpow : 2 ^ 1024 ≤ 10 ^ 310 := by decide +kernel
  exact_mod_cast hpow

theorem digits_bounds {m n : ℕ} {e u : ℤ} (hm : m ≠ 0) (hc : Canonical n u)
    (hv : RoundsTo (m * 10 ^ e) n u) :
    -330 ≤ e + (Nat.toDigits 10 m).length ∧ e + (Nat.toDigits 10 m).length ≤ 310 := by
  have hmost := hc.most
  have hleast := hc.least
  constructor
  · by_contra hlt
    have hsmall : (m : ℚ) * 10 ^ e < 10 ^ (-330 : ℤ) :=
      calc (m : ℚ) * 10 ^ e < 10 ^ ((Nat.toDigits 10 m).length : ℤ) * 10 ^ e := by
            gcongr
            exact lt_pow_digits m
        _ ≤ 10 ^ (-330 : ℤ) := by
            rw [← zpow_add₀ (by norm_num)]
            exact zpow_le_zpow_right₀ (by norm_num) (by omega)
    have hlarge : (2 : ℚ) ^ (-1075 : ℤ) ≤ m * 10 ^ e :=
      (zpow_le_zpow_right₀ one_le_two (by omega)).trans (hv.pow_le hc)
    exact absurd (hlarge.trans_lt hsmall) (not_lt.mpr vanishing_le)
  · by_contra hlt
    have hlarge : (10 : ℚ) ^ (310 : ℤ) ≤ m * 10 ^ e :=
      calc (10 : ℚ) ^ (310 : ℤ) ≤ 10 ^ ((Nat.toDigits 10 m).length - 1 : ℤ) * 10 ^ e := by
            rw [← zpow_add₀ (by norm_num)]
            exact zpow_le_zpow_right₀ (by norm_num) (by omega)
        _ ≤ m * 10 ^ e := by
            gcongr
            exact pow_digits_le hm
    have hsmall : (m : ℚ) * 10 ^ e < 2 ^ (1024 : ℤ) :=
      (hv.lt_pow hc).trans_le (zpow_le_zpow_right₀ one_le_two (by omega))
    exact absurd (hlarge.trans_lt hsmall) (not_lt.mpr le_overflowing)

-- A number in the interval of a double is read as this double, up to its sign.
theorem nearest_eq (x : Binary64) (hc : Canonical x.significand x.unit) {m : ℕ} {e : ℤ}
    (hm : m ≠ 0) (hv : RoundsTo (m * 10 ^ e) x.significand x.unit) :
    Decimal.nearest m e = x.abs := by
  obtain ⟨hlow, hhigh⟩ := digits_bounds hm hc hv
  simp only [Decimal.nearest, hm, not_lt.mpr hlow, not_lt.mpr hhigh, or_self, if_false]
  exact ofFloat_ofScientific x hc hm hv

end StatsDaemon.Binary64
