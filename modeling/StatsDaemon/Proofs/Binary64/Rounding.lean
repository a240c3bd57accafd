import Mathlib

namespace StatsDaemon.Binary64

open Float.Model Float.Model.UnpackedFloat

-- A mantissa with its two residual bits stands for the numbers from it up to the next one.
def StandsFor (em : ExtendedMantissa) (y : ℚ) : Prop :=
  match em.roundBit, em.stickyBit with
  | false, false => y = em.mantissa
  | false, true => em.mantissa < y ∧ y < em.mantissa + 1 / 2
  | true, false => y = em.mantissa + 1 / 2
  | true, true => em.mantissa + 1 / 2 < y ∧ y < em.mantissa + 1

theorem StandsFor.floor {em : ExtendedMantissa} {y : ℚ} (h : StandsFor em y) :
    (em.mantissa : ℚ) ≤ y ∧ y < em.mantissa + 1 := by
  obtain ⟨m, round, sticky⟩ := em
  cases round <;> cases sticky <;> simp only [StandsFor] at h ⊢ <;> constructor <;> linarith

theorem StandsFor.shiftRightOne {em : ExtendedMantissa} {y : ℚ} (h : StandsFor em y) :
    StandsFor em.shiftRightOne (y / 2) := by
  obtain ⟨m, round, sticky⟩ := em
  have hm : ((m % 2 : ℕ) : ℚ) + 2 * ((m / 2 : ℕ) : ℚ) = m := by exact_mod_cast Nat.mod_add_div m 2
  rcases Nat.mod_two_eq_zero_or_one m with hmod | hmod <;> rw [hmod] at hm <;>
    cases round <;> cases sticky <;>
    simp [StandsFor, ExtendedMantissa.shiftRightOne, hmod] at h hm ⊢ <;>
    first | linarith | constructor <;> linarith

theorem StandsFor.shiftRight {em : ExtendedMantissa} {y : ℚ} (h : StandsFor em y) (n : ℕ) :
    StandsFor (em >>> n) (y / 2 ^ n) := by
  change StandsFor (n.repeat ExtendedMantissa.shiftRightOne em) (y / 2 ^ n)
  induction n with
  | zero => simpa [Nat.repeat] using h
  | succ n ih =>
    rw [Nat.repeat, pow_succ, ← div_div]
    exact ih.shiftRightOne

structure NearestEven (y : ℚ) (n : ℕ) : Prop where
  lower : (n : ℚ) - 1 / 2 ≤ y
  upper : y ≤ n + 1 / 2
  odd : n % 2 = 1 → (n : ℚ) - 1 / 2 < y ∧ y < n + 1 / 2

theorem StandsFor.roundedMantissa {em : ExtendedMantissa} {y : ℚ} (h : StandsFor em y) {n : ℕ}
    (hn : NearestEven y n) : em.roundedMantissa = n := by
  obtain ⟨m, round, sticky⟩ := em
  have hlower := hn.lower
  have hupper := hn.upper
  have hle : ∀ a b : ℕ, (a : ℚ) < b + 1 → a ≤ b := fun a b hab => by
    have : a < b + 1 := by exact_mod_cast hab
    omega
  cases round <;> cases sticky <;>
    simp only [StandsFor] at h <;>
    simp only [ExtendedMantissa.roundedMantissa, ExtendedMantissa.accuracy,
      Accuracy.roundToNearestEven]
  · exact le_antisymm (hle m n (by linarith)) (hle n m (by linarith))
  · exact le_antisymm (hle m n (by linarith)) (hle n m (by linarith))
  · have hm := hle m n (by linarith)
    have hn1 := hle n (m + 1) (by push_cast; linarith)
    have heven : n % 2 ≠ 1 := by
      intro hodd
      have hstrict := hn.odd hodd
      rcases Nat.lt_or_ge m n with hlt | hge
      · have : (m : ℚ) + 1 ≤ n := by exact_mod_cast hlt
        linarith
      · have : (n : ℚ) ≤ m := by exact_mod_cast hge
        linarith
    omega
  · exact le_antisymm (hle (m + 1) n (by push_cast; linarith))
      (hle n (m + 1) (by push_cast; linarith))

theorem standsFor_exact (m : ℕ) :
    StandsFor (ExtendedMantissa.ofMantissaAndAccuracy m .exact) m := rfl

theorem standsFor_fraction (m num den : ℕ) (h : num < den) :
    StandsFor (ExtendedMantissa.ofMantissaAndAccuracy m (accuracyOfFraction num den))
      (m + num / den) := by
  have hden : (0 : ℚ) < den := by exact_mod_cast Nat.zero_lt_of_lt h
  unfold accuracyOfFraction
  split
  · rename_i hzero
    simp [hzero, StandsFor, ExtendedMantissa.ofMantissaAndAccuracy]
  · rename_i hnum
    have hpos : (0 : ℚ) < num := by exact_mod_cast Nat.pos_of_ne_zero hnum
    have hone : (num : ℚ) / den < 1 := by
      rw [div_lt_one hden]
      exact_mod_cast h
    have hzero : 0 < (num : ℚ) / den := div_pos hpos hden
    rcases lt_trichotomy (2 * num) den with hlt | heq | hgt
    · rw [Nat.compare_eq_lt.mpr hlt]
      have hhalf : (num : ℚ) / den < 1 / 2 := by
        rw [div_lt_div_iff₀ hden two_pos]
        exact_mod_cast (by omega : num * 2 < 1 * den)
      simp only [StandsFor, ExtendedMantissa.ofMantissaAndAccuracy]
      constructor <;> linarith
    · rw [Nat.compare_eq_eq.mpr heq]
      have hhalf : (num : ℚ) / den = 1 / 2 := by
        rw [div_eq_div_iff hden.ne' two_ne_zero]
        exact_mod_cast (by omega : num * 2 = 1 * den)
      simp only [StandsFor, ExtendedMantissa.ofMantissaAndAccuracy]
      linarith
    · rw [Nat.compare_eq_gt.mpr hgt]
      have hhalf : 1 / 2 < (num : ℚ) / den := by
        rw [div_lt_div_iff₀ two_pos hden]
        exact_mod_cast (by omega : 1 * den < num * 2)
      simp only [StandsFor, ExtendedMantissa.ofMantissaAndAccuracy]
      constructor <;> linarith

-- A number of the format that is neither zero nor infinite, as significand and exponent.
structure Canonical (m : ℕ) (e : ℤ) : Prop where
  pos : 0 < m
  lt : m < 2 ^ 53
  least : -1074 ≤ e
  most : e ≤ 971
  normal : 2 ^ 52 ≤ m ∨ e = -1074

-- The interval of numbers that round to a canonical one. Below a power of two it is shorter.
structure RoundsTo (v : ℚ) (m : ℕ) (e : ℤ) : Prop where
  lower : ((m : ℚ) - if m = 2 ^ 52 ∧ -1074 < e then 1 / 4 else 1 / 2) * 2 ^ e ≤ v
  upper : v ≤ (m + 1 / 2) * 2 ^ e
  odd : m % 2 = 1 → ((m : ℚ) - 1 / 2) * 2 ^ e < v ∧ v < (m + 1 / 2) * 2 ^ e

theorem targetExponent_eq (m : ℕ) (e : ℤ) :
    Format.binary64.targetExponent (totalExponent m e) = max (m.log2 + e - 52) (-1074) := by
  simp only [Format.targetExponent, totalExponent, Format.mantissaBits, Format.minExponent]
  norm_num
  omega

theorem Canonical.targetExponent {m : ℕ} {e : ℤ} (h : Canonical m e) :
    Format.binary64.targetExponent (totalExponent m e) = e := by
  have hlt : m.log2 < 53 := (Nat.log2_lt h.pos.ne').mpr h.lt
  have hleast := h.least
  rw [targetExponent_eq]
  rcases h.normal with hnormal | hsubnormal
  · have hle : 52 ≤ m.log2 := (Nat.le_log2 h.pos.ne').mpr hnormal
    omega
  · omega

theorem shift_canonical {m : ℕ} {e : ℤ} (h : Canonical m e) :
    shiftToTargetExponent Format.binary64 m e .exact = (⟨m, false, false⟩, e) := by
  simp only [shiftToTargetExponent, h.targetExponent, shiftToExponent, sub_self, Int.toNat_zero,
    Nat.cast_zero, add_zero]
  rfl

theorem shift_overflow {e : ℤ} (h : -1074 ≤ e) :
    shiftToTargetExponent Format.binary64 (2 ^ 53) e .exact = (⟨2 ^ 52, false, false⟩, e + 1) := by
  have htarget : Format.binary64.targetExponent (totalExponent (2 ^ 53) e) = e + 1 := by
    rw [targetExponent_eq, Nat.log2_two_pow]
    omega
  simp only [shiftToTargetExponent, htarget, shiftToExponent, add_sub_cancel_left]
  rfl

theorem shift_standsFor {m : ℕ} {e : ℤ} {acc : Accuracy} {y : ℚ}
    (hy : StandsFor (.ofMantissaAndAccuracy m acc) y) {t : ℤ}
    (ht : Format.binary64.targetExponent (totalExponent m e) = t) (he : e ≤ t) :
    ∃ em, shiftToTargetExponent Format.binary64 m e acc = (em, t) ∧
      StandsFor em (y * 2 ^ e / 2 ^ t) := by
  refine ⟨ExtendedMantissa.ofMantissaAndAccuracy m acc >>> (t - e).toNat, ?_, ?_⟩
  · simp only [shiftToTargetExponent, ht, shiftToExponent]
    congr 1
    omega
  · have hscale : y * 2 ^ e / 2 ^ t = y / 2 ^ (t - e).toNat := by
      have hpow : (2 : ℚ) ^ t = 2 ^ e * 2 ^ (t - e).toNat := by
        rw [← zpow_natCast, Int.toNat_of_nonneg (by omega), ← zpow_add₀ two_ne_zero]
        congr 1
        omega
      rw [hpow, mul_comm y, mul_div_mul_left _ _ (zpow_ne_zero e two_ne_zero)]
    rw [hscale]
    exact hy.shiftRight _

theorem RoundsTo.lt_pow {v : ℚ} {n : ℕ} {u : ℤ} (hv : RoundsTo v n u) (hc : Canonical n u) :
    v < 2 ^ (53 + u) := by
  have hn : (n : ℚ) + 1 ≤ 2 ^ 53 := by exact_mod_cast hc.lt
  rw [zpow_add₀ two_ne_zero]
  refine hv.upper.trans_lt (mul_lt_mul_of_pos_right ?_ (zpow_pos two_pos u))
  norm_num at hn ⊢
  linarith

theorem RoundsTo.near_pow {v : ℚ} {n : ℕ} {u : ℤ} (hv : RoundsTo v n u) (hc : Canonical n u)
    (hu : -1074 < u) (hbelow : v < 2 ^ (52 + u)) : n = 2 ^ 52 ∧ 2 ^ (51 + u) ≤ v := by
  have hnormal : 2 ^ 52 ≤ n := hc.normal.resolve_right hu.ne'
  have hpow : (0 : ℚ) < 2 ^ u := zpow_pos two_pos u
  have hn : n = 2 ^ 52 := by
    by_contra hne
    have hsucc : (2 : ℚ) ^ 52 + 1 ≤ n := by exact_mod_cast Nat.lt_of_le_of_ne hnormal (Ne.symm hne)
    have hlower := hv.lower
    rw [if_neg fun h => hne h.1] at hlower
    rw [zpow_add₀ two_ne_zero] at hbelow
    have hlt := lt_of_mul_lt_mul_right (hlower.trans_lt hbelow) hpow.le
    linarith
  refine ⟨hn, le_trans ?_ hv.lower⟩
  rw [if_pos ⟨hn, hu⟩, hn, zpow_add₀ two_ne_zero]
  refine mul_le_mul_of_nonneg_right ?_ hpow.le
  norm_num

theorem le_log2_of_lt {m : ℕ} {e k : ℤ} {y : ℚ} (hy : y < m + 1)
    (hk : 2 ^ k ≤ y * 2 ^ e) : k ≤ m.log2 + e := by
  have hsucc : (m : ℚ) + 1 ≤ 2 ^ ((m.log2 : ℤ) + 1) := by
    exact_mod_cast Nat.lt_log2_self (n := m)
  have hlt : (2 : ℚ) ^ k < 2 ^ ((m.log2 : ℤ) + 1 + e) := by
    rw [zpow_add₀ two_ne_zero]
    exact hk.trans_lt (mul_lt_mul_of_pos_right (hy.trans_le hsucc) (zpow_pos two_pos e))
  have := (zpow_lt_zpow_iff_right₀ one_lt_two).mp hlt
  omega

theorem log2_lt_of_le {m : ℕ} {e k : ℤ} {y : ℚ} (hm : m ≠ 0) (hy : (m : ℚ) ≤ y)
    (hk : y * 2 ^ e < 2 ^ k) : m.log2 + e < k := by
  have hself : (2 : ℚ) ^ (m.log2 : ℤ) ≤ m := by exact_mod_cast Nat.log2_self_le hm
  have hlt : (2 : ℚ) ^ ((m.log2 : ℤ) + e) < 2 ^ k := by
    rw [zpow_add₀ two_ne_zero]
    exact (mul_le_mul_of_nonneg_right (hself.trans hy) (zpow_pos two_pos e).le).trans_lt hk
  exact (zpow_lt_zpow_iff_right₀ one_lt_two).mp hlt

-- The exponent that a number asks for is that of the canonical number next to it, or one less just
-- below a power of two.
theorem targetExponent_of_roundsTo {m n : ℕ} {e u : ℤ} {y : ℚ} (hfloor : (m : ℚ) ≤ y ∧ y < m + 1)
    (he : e ≤ Format.binary64.targetExponent (totalExponent m e)) (hc : Canonical n u)
    (hv : RoundsTo (y * 2 ^ e) n u) :
    Format.binary64.targetExponent (totalExponent m e) = u ∨
      (n = 2 ^ 52 ∧ -1074 < u ∧ y * 2 ^ e < 2 ^ (52 + u) ∧
        Format.binary64.targetExponent (totalExponent m e) = u - 1) := by
  have hleast := hc.least
  rw [targetExponent_eq] at he ⊢
  rcases Nat.eq_zero_or_pos m with rfl | hpos
  · -- Nothing but the least exponent is left.
    rw [Nat.log2_zero] at he ⊢
    have hlt : y * 2 ^ e < 2 ^ e := by
      simpa using mul_lt_mul_of_pos_right hfloor.2 (zpow_pos two_pos e)
    have hu : u = -1074 := by
      by_contra hne
      have hbelow : y * 2 ^ e < 2 ^ (52 + u) :=
        hlt.trans ((zpow_lt_zpow_iff_right₀ one_lt_two).mpr (by omega))
      have hnear := (hv.near_pow hc (by omega) hbelow).2
      have := (zpow_lt_zpow_iff_right₀ one_lt_two).mp (hnear.trans_lt hlt)
      omega
    omega
  · have habove := log2_lt_of_le hpos.ne' hfloor.1 (hv.lt_pow hc)
    rcases lt_or_ge (y * 2 ^ e) (2 ^ (52 + u)) with hbelow | hge
    · have hlog := log2_lt_of_le hpos.ne' hfloor.1 hbelow
      by_cases hu : u = -1074
      · omega
      · obtain ⟨hn, hnear⟩ := hv.near_pow hc (by omega) hbelow
        have hlog' := le_log2_of_lt hfloor.2 hnear
        exact .inr ⟨hn, by omega, hbelow, by omega⟩
    · have hlog := le_log2_of_lt hfloor.2 hge
      omega

theorem RoundsTo.nearestEven {v : ℚ} {n : ℕ} {u : ℤ} (hv : RoundsTo v n u) :
    NearestEven (v / 2 ^ u) n := by
  have hu : (0 : ℚ) < 2 ^ u := zpow_pos two_pos u
  refine ⟨?_, ?_, fun hodd => ?_⟩
  · rw [le_div_iff₀ hu]
    refine le_trans ?_ hv.lower
    refine mul_le_mul_of_nonneg_right ?_ hu.le
    split <;> linarith
  · rw [div_le_iff₀ hu]
    exact hv.upper
  · rw [lt_div_iff₀ hu, div_lt_iff₀ hu]
    exact hv.odd hodd

-- Just below a power of two the significand has a bit more, and is rounded up to the power.
theorem RoundsTo.nearestEven_below {v : ℚ} {u : ℤ} (hv : RoundsTo v (2 ^ 52) u)
    (hnormal : -1074 < u) (hbelow : v < 2 ^ (52 + u)) : NearestEven (v / 2 ^ (u - 1)) (2 ^ 53) := by
  have hu : (0 : ℚ) < 2 ^ (u - 1) := zpow_pos two_pos _
  have hhalf : (2 : ℚ) ^ (u - 1) * 2 = 2 ^ u := by
    rw [← zpow_add_one₀ two_ne_zero, sub_add_cancel]
  refine ⟨?_, ?_, fun hodd => absurd hodd (by decide)⟩
  · have hlower := hv.lower
    rw [if_pos ⟨rfl, hnormal⟩, ← hhalf] at hlower
    rw [le_div_iff₀ hu]
    push_cast at hlower ⊢
    linarith
  · rw [zpow_add₀ two_ne_zero, ← hhalf] at hbelow
    rw [div_le_iff₀ hu]
    push_cast
    norm_num at hbelow ⊢
    linarith

theorem roundWithAccuracy_eq {m n : ℕ} {e u : ℤ} {acc : Accuracy} {y : ℚ} (s : Sign)
    (hy : StandsFor (.ofMantissaAndAccuracy m acc) y)
    (he : e ≤ Format.binary64.targetExponent (totalExponent m e)) (hc : Canonical n u)
    (hv : RoundsTo (y * 2 ^ e) n u) :
    roundWithAccuracy Format.binary64 s m e acc = .finite s n u hc.pos := by
  have hfloor : (m : ℚ) ≤ y ∧ y < m + 1 := by
    have hmantissa : (ExtendedMantissa.ofMantissaAndAccuracy m acc).mantissa = m := by
      cases acc with
      | exact => rfl
      | inexact o => cases o <;> rfl
    simpa only [hmantissa] using hy.floor
  rcases targetExponent_of_roundsTo hfloor he hc hv with ht | ⟨rfl, hnormal, hbelow, ht⟩
  · obtain ⟨em, hshift, hem⟩ := shift_standsFor hy ht (ht ▸ he)
    have hrounded := hem.roundedMantissa hv.nearestEven
    simp only [roundWithAccuracy, hshift, hrounded, shift_canonical hc, hc.pos.ne', dif_neg,
      not_false_eq_true]
  · obtain ⟨em, hshift, hem⟩ := shift_standsFor hy ht (ht ▸ he)
    have hrounded := hem.roundedMantissa (hv.nearestEven_below hnormal hbelow)
    simp only [roundWithAccuracy, hshift, hrounded, shift_overflow (by omega : -1074 ≤ u - 1),
      sub_add_cancel]
    rfl

end StatsDaemon.Binary64
