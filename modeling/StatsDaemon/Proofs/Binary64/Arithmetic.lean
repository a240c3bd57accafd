import StatsDaemon.Proofs.Binary64.Values

namespace StatsDaemon.Binary64

open Float.Model Float.Model.UnpackedFloat

theorem apply_natCast (s : Sign) (n : ℕ) : ((s.apply n : ℤ) : ℚ) = sgn s * n := by
  cases s <;> simp [Sign.apply, sgn]

theorem sgn_mul (s t : Sign) : sgn (s * t) = sgn s * sgn t := by
  cases s <;> cases t
  · exact ((neg_mul_neg (1 : ℚ) 1).trans (one_mul 1)).symm
  · exact (mul_one (-1)).symm
  · exact (one_mul (-1)).symm
  · exact (one_mul 1).symm

theorem sgn_neg (s : Sign) : sgn (-s) = -sgn s := by
  cases s
  · exact (neg_neg 1).symm
  · rfl

theorem div_eq_mul (s t : Sign) : s / t = s * t := by
  cases s <;> cases t <;> rfl

theorem abs_sgn (s : Sign) : |sgn s| = 1 := by
  cases s <;> simp [sgn]

theorem sgn_mul_self (s : Sign) : sgn s * sgn s = 1 := by
  cases s <;> simp [sgn]

-- What an exact result comes to before it is packed.
def Computes (f : UnpackedFloat) (v : ℚ) : Prop :=
  ∃ s n u, Near |v| n u ∧ f = signed s n u ∧ 0 ≤ v * sgn s

theorem computes_signed (s : Sign) {w : ℚ} {n : ℕ} {u : ℤ} (hw : 0 ≤ w) (h : Near w n u) :
    Computes (signed s n u) (sgn s * w) := by
  refine ⟨s, n, u, ?_, rfl, ?_⟩
  · rwa [abs_mul, abs_sgn, one_mul, abs_of_nonneg hw]
  · rwa [mul_right_comm, sgn_mul_self, one_mul]

theorem Fits.near {n : ℕ} {u : ℤ} (h : Fits n u) : Near (n * 2 ^ u) n u where
  toFits := h
  lower := mul_le_mul_of_nonneg_right (by linarith) (zpow_pos two_pos u).le
  upper := mul_le_mul_of_nonneg_right (by linarith) (zpow_pos two_pos u).le

theorem Shows.computes {f : UnpackedFloat} {v : ℚ} (h : Shows f v) : Computes f v := by
  obtain ⟨s, n, u, hfits, -, rfl, rfl⟩ := h
  exact computes_signed s (by positivity) hfits.near

theorem shows_zero (s : Sign) : Shows (.zero s) 0 :=
  ⟨s, 0, -1074, ⟨by norm_num, le_rfl, .inr rfl⟩, by norm_num, rfl, by simp⟩

theorem Shows.cases {f : UnpackedFloat} {v : ℚ} (h : Shows f v) :
    (∃ s, f = .zero s ∧ v = 0) ∨
      ∃ s n u, ∃ hn : 0 < n, Fits n u ∧ f = .finite s n u hn ∧ v = sgn s * (n * 2 ^ u) := by
  obtain ⟨s, n, u, hfits, -, rfl, rfl⟩ := h
  rcases Nat.eq_zero_or_pos n with rfl | hn
  · exact .inl ⟨s, rfl, by simp⟩
  · exact .inr ⟨s, n, u, hn, hfits, signed_of_pos hn, rfl⟩

-- The number nearest to an exact one, or the infinity of its sign.
def Settles (f : UnpackedFloat) (v : ℚ) : Prop :=
  ∃ s n u, Near |v| n u ∧ 0 ≤ v * sgn s ∧ f = if u ≤ 971 then signed s n u else .infinity s

theorem repack_overflow {s : Sign} {n : ℕ} {u : ℤ} (h : Fits n u) (hu : 971 < u) :
    repack (signed s n u) = .infinity s := by
  have hpos : 0 < n := by
    have := h.normal
    omega
  have hpack : UnpackedFloat.pack Format.binary64 (.finite s n u hpos) =
      packedInfinity Format.binary64 s := by
    have hlarge : 2 ^ Format.binary64.exponentBits ≤
        (u + Format.binary64.exponentBias + Format.binary64.mantissaBitsWithoutImplicit).toNat + 1 := by
      change 2 ^ 11 ≤ (u + (1023 : ℕ) + (52 : ℕ)).toNat + 1
      omega
    simp only [UnpackedFloat.pack, hlarge, if_true]
  rw [signed_of_pos hpos]
  change UnpackedFloat.unpack Format.binary64
    (UnpackedFloat.pack Format.binary64 (.finite s n u hpos)) = _
  rw [hpack, unpack_packedInfinity]

theorem Computes.settles {f : UnpackedFloat} {v : ℚ} (h : Computes f v) : Settles (repack f) v := by
  obtain ⟨s, n, u, hnear, rfl, hsign⟩ := h
  refine ⟨s, n, u, hnear, hsign, ?_⟩
  split
  · exact repack_signed hnear.toFits ‹_›
  · exact repack_overflow hnear.toFits (by omega)

theorem Settles.repack {f : UnpackedFloat} {v : ℚ} (h : Settles f v) : repack f = f := by
  obtain ⟨s, n, u, hnear, -, rfl⟩ := h
  split
  · exact repack_signed hnear.toFits ‹_›
  · exact repack_infinity s

theorem round_computes (s : Sign) {m : ℕ} (hm : m ≠ 0) (e : ℤ) :
    Computes (UnpackedFloat.round Format.binary64 s m e) (sgn s * (m * 2 ^ e)) := by
  obtain ⟨n, u, hnear, hround⟩ := round_near s hm e
  rw [hround]
  exact computes_signed s (by positivity) hnear

theorem normalize_computes (m e : ℤ) (z : Sign) :
    Computes (UnpackedFloat.normalize Format.binary64 m e z) (m * 2 ^ e) := by
  unfold UnpackedFloat.normalize
  rcases lt_trichotomy m 0 with hneg | rfl | hpos
  · have hround := round_computes .negative (m := (-m).toNat) (by omega) e
    have hvalue : (((-m).toNat : ℕ) : ℚ) = -m := by
      exact_mod_cast Int.toNat_of_nonneg (by omega : 0 ≤ -m)
    rw [hvalue, sgn, neg_one_mul, neg_mul, neg_neg] at hround
    simpa only [compare_lt_iff_lt.mpr hneg] using hround
  · simpa using (shows_zero z).computes
  · have hround := round_computes .positive (m := m.toNat) (by omega) e
    have hvalue : ((m.toNat : ℕ) : ℚ) = m := by
      exact_mod_cast Int.toNat_of_nonneg hpos.le
    rw [hvalue, sgn, one_mul] at hround
    simpa only [compare_gt_iff_gt.mpr hpos] using hround

theorem aligned (s : Sign) (m : ℕ) {e t : ℤ} (ht : t ≤ e) :
    ((s.apply (decreaseExponent m e t).1 : ℤ) : ℚ) * 2 ^ t = sgn s * (m * 2 ^ e) := by
  have hmagnitude : ((m <<< (e - t).toNat : ℕ) : ℚ) * 2 ^ t = m * 2 ^ e :=
    shiftLeft_mul_zpow m _ (by omega)
  rw [apply_natCast, mul_assoc]
  exact congrArg (sgn s * ·) hmagnitude

theorem add_computes {f g : UnpackedFloat} {v w : ℚ} (hf : Shows f v) (hg : Shows g w) :
    Computes (UnpackedFloat.add Format.binary64 f g) (v + w) := by
  rcases hf.cases with ⟨s, rfl, rfl⟩ | ⟨s, m, e, hm, hfits, rfl, rfl⟩
  · rcases hg.cases with ⟨t, rfl, rfl⟩ | ⟨t, n, u, hn, -, rfl, rfl⟩
    · rw [add_zero]
      simp only [UnpackedFloat.add]
      split <;> exact (shows_zero _).computes
    · rw [zero_add]
      exact hg.computes
  · rcases hg.cases with ⟨t, rfl, rfl⟩ | ⟨t, n, u, hn, -, rfl, rfl⟩
    · rw [add_zero]
      exact hf.computes
    · have hsum := normalize_computes
        (s.apply (decreaseExponent m e (min e u)).1 + t.apply (decreaseExponent n u (min e u)).1)
        (min e u) .positive
      rw [Int.cast_add, add_mul, aligned s m (min_le_left e u), aligned t n (min_le_right e u)]
        at hsum
      exact hsum

theorem apply_neg (s : Sign) (k : ℤ) : (-s).apply k = -s.apply k := by
  cases s
  · exact (neg_neg k).symm
  · rfl

-- A difference is the sum with the negation, also of what is not finite.
theorem sub_eq_add (f g : UnpackedFloat) :
    UnpackedFloat.sub Format.binary64 f g = UnpackedFloat.add Format.binary64 f g.neg := by
  cases f <;> cases g <;> try rfl
  simp only [UnpackedFloat.sub, UnpackedFloat.add, UnpackedFloat.neg, apply_neg, sub_eq_add_neg]

theorem Shows.neg {f : UnpackedFloat} {v : ℚ} (h : Shows f v) : Shows f.neg (-v) := by
  obtain ⟨s, n, u, hfits, hu, rfl, rfl⟩ := h
  refine ⟨-s, n, u, hfits, hu, ?_, ?_⟩
  · unfold signed
    split <;> rfl
  · rw [sgn_neg, neg_mul]

theorem sub_computes {f g : UnpackedFloat} {v w : ℚ} (hf : Shows f v) (hg : Shows g w) :
    Computes (UnpackedFloat.sub Format.binary64 f g) (v - w) := by
  rw [sub_eq_add, sub_eq_add_neg]
  exact add_computes hf hg.neg

theorem Fits.mul_le_target {m n : ℕ} {e u : ℤ} (hm : Fits m e) (hn : Fits n u) (hmpos : 0 < m)
    (hnpos : 0 < n) :
    e + u ≤ Format.binary64.targetExponent (totalExponent (m * n) (e + u)) := by
  rcases hm.normal with hwide | he
  · exact le_targetExponent (hwide.trans (Nat.le_mul_of_pos_right m hnpos))
  · rcases hn.normal with hwide | hu
    · exact le_targetExponent (hwide.trans (Nat.le_mul_of_pos_left n hmpos))
    · rw [targetExponent_eq]
      omega

theorem mul_computes {f g : UnpackedFloat} {v w : ℚ} (hf : Shows f v) (hg : Shows g w) :
    Computes (UnpackedFloat.mul Format.binary64 f g) (v * w) := by
  rcases hf.cases with ⟨s, rfl, rfl⟩ | ⟨s, m, e, hm, hfits, rfl, rfl⟩
  · rw [zero_mul]
    rcases hg.cases with ⟨t, rfl, -⟩ | ⟨t, n, u, hn, -, rfl, -⟩ <;> exact (shows_zero _).computes
  · rcases hg.cases with ⟨t, rfl, rfl⟩ | ⟨t, n, u, hn, hfits', rfl, rfl⟩
    · rw [mul_zero]
      exact (shows_zero _).computes
    · obtain ⟨k, x, hnear, hround⟩ := roundWithAccuracy_near (s * t) (standsFor_exact (m * n))
        (hfits.mul_le_target hfits' hm hn)
      have hvalue : sgn s * (m * 2 ^ e) * (sgn t * (n * 2 ^ u)) =
          sgn (s * t) * (((m * n : ℕ) : ℚ) * 2 ^ (e + u)) := by
        rw [Nat.cast_mul, sgn_mul, zpow_add₀ two_ne_zero]
        ring
      change Computes (roundWithAccuracy Format.binary64 (s * t) (m * n) (e + u) .exact) _
      rw [hvalue, hround]
      exact computes_signed (s * t) (by positivity) hnear

theorem div_computes {f g : UnpackedFloat} {v w : ℚ} (hf : Shows f v) (hg : Shows g w)
    (hw : w ≠ 0) : Computes (UnpackedFloat.div Format.binary64 f g) (v / w) := by
  rcases hg.cases with ⟨t, rfl, rfl⟩ | ⟨t, n, u, hn, -, rfl, rfl⟩
  · exact absurd rfl hw
  · rcases hf.cases with ⟨s, rfl, rfl⟩ | ⟨s, m, e, hm, -, rfl, rfl⟩
    · rw [zero_div]
      exact (shows_zero _).computes
    · obtain ⟨q, x, acc, y, hcore, hy, hquotient, hx⟩ := divCore_standsFor e u hm hn
      obtain ⟨k, z, hnear, hround⟩ := roundWithAccuracy_near (s / t) hy hx
      have hvalue : sgn s * (m * 2 ^ e) / (sgn t * (n * 2 ^ u)) = sgn (s / t) * (y * 2 ^ x) := by
        rw [hquotient, div_eq_mul, sgn_mul, mul_div_mul_comm]
        congr 1
        rw [div_eq_iff (by cases t <;> norm_num [sgn]), mul_assoc, sgn_mul_self, mul_one]
      have hpos : 0 ≤ y * 2 ^ x := by
        rw [hquotient]
        positivity
      simp only [UnpackedFloat.div, hcore]
      rw [hvalue, hround]
      exact computes_signed (s / t) hpos hnear

def rootAccuracy (n : ℕ) : Accuracy :=
  if n - Nat.sqrt n * Nat.sqrt n = 0 then .exact
  else .inexact (if n - Nat.sqrt n * Nat.sqrt n ≤ Nat.sqrt n then .lt else .gt)

-- A rational number may stand for the exact root, since only its place among the halves counts.
theorem root_standsFor (n : ℕ) : ∃ y, StandsFor (.ofMantissaAndAccuracy (Nat.sqrt n) (rootAccuracy n)) y ∧
    0 ≤ y ∧ ∀ c : ℕ, n ≤ c * c → y ≤ c := by
  have hroot : (0 : ℚ) ≤ Nat.sqrt n := Nat.cast_nonneg _
  have hle : ∀ c : ℕ, n ≤ c * c → Nat.sqrt n ≤ c := fun c hc =>
    (Nat.sqrt_le_sqrt hc).trans_eq (Nat.sqrt_eq c)
  by_cases hexact : n - Nat.sqrt n * Nat.sqrt n = 0
  · refine ⟨Nat.sqrt n, ?_, hroot, fun c hc => by exact_mod_cast hle c hc⟩
    rw [rootAccuracy, if_pos hexact]
    exact standsFor_exact _
  · -- A root that is not exact is less than any whole number whose square is not below.
    have hlt : ∀ c : ℕ, n ≤ c * c → (Nat.sqrt n : ℚ) + 1 ≤ c := by
      intro c hc
      have hne : Nat.sqrt n ≠ c := by
        rintro rfl
        omega
      exact_mod_cast lt_of_le_of_ne (hle c hc) hne
    by_cases hhalf : n - Nat.sqrt n * Nat.sqrt n ≤ Nat.sqrt n
    · refine ⟨Nat.sqrt n + 1 / 4, ?_, by linarith, fun c hc => by linarith [hlt c hc]⟩
      rw [rootAccuracy, if_neg hexact, if_pos hhalf]
      constructor <;> simp only [ExtendedMantissa.ofMantissaAndAccuracy] <;> linarith
    · refine ⟨Nat.sqrt n + 3 / 4, ?_, by linarith, fun c hc => by linarith [hlt c hc]⟩
      rw [rootAccuracy, if_neg hexact, if_neg hhalf]
      constructor <;> simp only [ExtendedMantissa.ofMantissaAndAccuracy] <;> linarith

theorem sqrt_le_target {m k : ℕ} {e t : ℤ} (hm : 0 < m) (hk : (e - 2 * t).toNat = k)
    (hbelow : 2 * t ≤ e)
    (htarget : t ≤ Format.binary64.targetExponent ((totalExponent m e + 1).ediv 2)) :
    t ≤ Format.binary64.targetExponent (totalExponent (Nat.sqrt (m <<< k)) t) := by
  rcases Int.lt_or_le (-1074) t with hnormal | hsub
  · refine le_targetExponent (Nat.le_sqrt.mpr ?_)
    have hlog : 104 ≤ m.log2 + k := by
      change t ≤ max ((m.log2 + 1 + e + 1) / 2 - 53) (-1074) at htarget
      omega
    calc 2 ^ 52 * 2 ^ 52 = 2 ^ 104 := rfl
      _ ≤ 2 ^ (m.log2 + k) := Nat.pow_le_pow_right two_pos hlog
      _ = 2 ^ m.log2 * 2 ^ k := pow_add ..
      _ ≤ m * 2 ^ k := Nat.mul_le_mul_right _ (Nat.log2_self_le hm.ne')
      _ = m <<< k := (Nat.shiftLeft_eq ..).symm
  · rw [targetExponent_eq]
    omega

theorem root_le_pow {n : ℕ} {t j : ℤ} {y : ℚ} (hn : 0 < n) (hmost : ∀ c : ℕ, n ≤ c * c → y ≤ c)
    (h : (n : ℚ) * 2 ^ (2 * t) ≤ 2 ^ (2 * j)) : y * 2 ^ t ≤ 2 ^ j := by
  -- A number that is not zero has a root of at least one unit.
  have hle : t ≤ j := by
    have hone : (1 : ℚ) ≤ n := by exact_mod_cast hn
    have hunit : (2 : ℚ) ^ (2 * t) ≤ 2 ^ (2 * j) :=
      (le_mul_of_one_le_left (zpow_pos two_pos _).le hone).trans h
    have hdouble := (zpow_le_zpow_iff_right₀ one_lt_two).mp hunit
    omega
  obtain ⟨c, hc⟩ := exists_multiple hle
  have hsquare : (2 : ℚ) ^ (2 * j) = (c * c : ℕ) * 2 ^ (2 * t) := by
    rw [two_mul, two_mul, zpow_add₀ two_ne_zero, zpow_add₀ two_ne_zero, hc]
    push_cast
    ring
  rw [hsquare] at h
  have hcast : n ≤ c * c := by
    exact_mod_cast le_of_mul_le_mul_right h (zpow_pos two_pos _)
  rw [hc]
  exact mul_le_mul_of_nonneg_right (hmost c hcast) (zpow_pos two_pos t).le

theorem sqrtCore_standsFor {m : ℕ} (e : ℤ) (hm : 0 < m) : ∃ r t acc y,
    sqrtCore Format.binary64 m e = (r, t, acc) ∧ StandsFor (.ofMantissaAndAccuracy r acc) y ∧
      0 ≤ y ∧ t ≤ Format.binary64.targetExponent (totalExponent r t) ∧
      ∀ k : ℤ, m * 2 ^ e ≤ (2 : ℚ) ^ (2 * k) → y * 2 ^ t ≤ 2 ^ k := by
  obtain ⟨t, ht⟩ : ∃ t, min (e.ediv 2)
    (Format.binary64.targetExponent ((totalExponent m e + 1).ediv 2)) = t := ⟨_, rfl⟩
  obtain ⟨k, hk⟩ : ∃ k, (e - 2 * t).toNat = k := ⟨_, rfl⟩
  have hcore : sqrtCore Format.binary64 m e =
      (Nat.sqrt (m <<< k), t, rootAccuracy (m <<< k)) := by
    simp only [sqrtCore, ht, hk]
    rfl
  have hbelow : 2 * t ≤ e := by
    have : t ≤ e.ediv 2 := ht ▸ min_le_left _ _
    have : e.ediv 2 = e / 2 := rfl
    omega
  have hvalue : ((m <<< k : ℕ) : ℚ) * 2 ^ (2 * t) = m * 2 ^ e := shiftLeft_mul_zpow m k (by omega)
  have hpos : 0 < m <<< k := by
    rw [Nat.shiftLeft_eq]
    positivity
  obtain ⟨y, hy, hnonneg, hmost⟩ := root_standsFor (m <<< k)
  exact ⟨_, t, _, y, hcore, hy, hnonneg, sqrt_le_target hm hk hbelow (ht ▸ min_le_right _ _),
    fun j hj => root_le_pow hpos hmost (hvalue.trans_le hj)⟩

theorem sqrt_computes {f : UnpackedFloat} {v : ℚ} (hf : Shows f v) (hv : 0 ≤ v) :
    ∃ w, 0 ≤ w ∧ Computes (UnpackedFloat.sqrt Format.binary64 f) w ∧
      ∀ k : ℤ, v ≤ 2 ^ (2 * k) → w ≤ 2 ^ k := by
  rcases hf.cases with ⟨s, rfl, rfl⟩ | ⟨s, m, e, hm, hfits, rfl, rfl⟩
  · exact ⟨0, le_rfl, (shows_zero s).computes, fun k _ => (zpow_pos two_pos k).le⟩
  · have hpow : (0 : ℚ) < m * 2 ^ e := by positivity
    cases s with
    | negative =>
      rw [sgn] at hv
      linarith
    | positive =>
      obtain ⟨r, t, acc, y, hcore, hy, hnonneg, ht, hmost⟩ := sqrtCore_standsFor e hm
      obtain ⟨n, u, hnear, hround⟩ := roundWithAccuracy_near .positive hy ht
      have hroot : 0 ≤ y * 2 ^ t := mul_nonneg hnonneg (zpow_pos two_pos t).le
      refine ⟨y * 2 ^ t, hroot, ?_, fun k hk => hmost k (by rwa [sgn, one_mul] at hk)⟩
      have hcomputes := computes_signed .positive hroot hnear
      rw [sgn, one_mul] at hcomputes
      simp only [UnpackedFloat.sqrt, hcore]
      rwa [hround]

end StatsDaemon.Binary64
