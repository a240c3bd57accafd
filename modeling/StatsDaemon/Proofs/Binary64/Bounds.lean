import StatsDaemon.Proofs.Binary64.Arithmetic

namespace StatsDaemon.Binary64

open Float.Model Float.Model.UnpackedFloat

-- A finite number that is no larger than a power of two, up to its sign.
def Within (k : ℤ) (x : Binary64) : Prop :=
  ∃ v, Shows x.decoded v ∧ |v| ≤ 2 ^ k

def AtLeast (k : ℤ) (x : Binary64) : Prop :=
  ∃ v, Shows x.decoded v ∧ 2 ^ k ≤ v

-- A number, finite or not.
def Extended (x : Binary64) : Prop :=
  x.isFinite = true ∨ ∃ s, x.decoded = .infinity s

def Nonneg (x : Binary64) : Prop :=
  (∃ v, Shows x.decoded v ∧ 0 ≤ v) ∨ x.decoded = .infinity .positive

variable {x y : Binary64} {v w : ℚ} {k : ℤ}

theorem Within.isFinite (h : Within k x) : x.isFinite = true := by
  obtain ⟨v, hv, -⟩ := h
  exact isFinite_of_shows hv

theorem Within.mono {j : ℤ} (h : Within j x) (hjk : j ≤ k) : Within k x := by
  obtain ⟨v, hv, hle⟩ := h
  exact ⟨v, hv, hle.trans (zpow_le_zpow_right₀ one_le_two hjk)⟩

theorem Nonneg.extended (h : Nonneg x) : Extended x := by
  rcases h with ⟨v, hv, -⟩ | hinf
  · exact .inl (isFinite_of_shows hv)
  · exact .inr ⟨_, hinf⟩

theorem Extended.isNaN (h : Extended x) : x.isNaN = false := by
  rcases h with hfinite | ⟨s, hs⟩
  · exact isNaN_of_isFinite hfinite
  · by_contra hnan
    rw [decoded, unpack_toFloat_of_isNaN (Bool.of_not_eq_false hnan)] at hs
    cases hs

theorem Shows.ne_infinity {f : UnpackedFloat} (h : Shows f v) (s : Sign) : f ≠ .infinity s := by
  rintro rfl
  rcases h.cases with ⟨t, ht, -⟩ | ⟨t, n, u, hn, -, ht, -⟩ <;> cases ht

theorem Shows.unique {f : UnpackedFloat} (hv : Shows f v) (hw : Shows f w) : v = w := by
  rcases hv.cases with ⟨s, rfl, rfl⟩ | ⟨s, m, e, hm, -, rfl, rfl⟩ <;>
    rcases hw.cases with ⟨t, ht, rfl⟩ | ⟨t, n, u, hn, -, ht, rfl⟩ <;> cases ht <;> rfl

theorem Fits.unit_le {n : ℕ} {u : ℤ} (h : Fits n u) (hk : k ≤ 1023)
    (hle : (n : ℚ) * 2 ^ u ≤ 2 ^ k) : u ≤ 971 := by
  by_contra hlt
  have hnormal : (2 : ℚ) ^ (52 : ℤ) ≤ n := by
    exact_mod_cast h.normal.resolve_right (by omega)
  have hlarge : (2 : ℚ) ^ (52 + u) ≤ 2 ^ k := by
    rw [zpow_add₀ two_ne_zero]
    exact (mul_le_mul_of_nonneg_right hnormal (zpow_pos two_pos u).le).trans hle
  have := (zpow_le_zpow_iff_right₀ one_lt_two).mp hlarge
  omega

theorem Settles.extended (h : Settles x.decoded v) : Extended x := by
  obtain ⟨s, n, u, hnear, -, heq⟩ := h
  split at heq
  · exact .inl (isFinite_of_shows ⟨s, n, u, hnear.toFits, ‹_›, heq, rfl⟩)
  · exact .inr ⟨s, heq⟩

theorem Near.eq_zero {n : ℕ} {u : ℤ} (h : Near 0 n u) : n = 0 := by
  have hpow : (0 : ℚ) < 2 ^ u := zpow_pos two_pos u
  have hhalf : (n : ℚ) - 1 / 2 ≤ 0 := by
    by_contra hlt
    exact (mul_pos (not_le.mp hlt) hpow).not_ge h.lower
  have hlt : (n : ℚ) < (1 : ℕ) := by
    push_cast
    linarith
  exact Nat.lt_one_iff.mp (Nat.cast_lt.mp hlt)

theorem sign_eq {s : Sign} (hv : 0 < v) (h : 0 ≤ v * sgn s) : s = .positive := by
  cases s with
  | positive => rfl
  | negative =>
    rw [sgn] at h
    linarith

theorem Settles.nonneg (h : Settles x.decoded v) (hv : 0 ≤ v) : Nonneg x := by
  obtain ⟨s, n, u, hnear, hsign, heq⟩ := h
  rcases hv.eq_or_lt with rfl | hpos
  · rw [abs_zero] at hnear
    obtain rfl := hnear.eq_zero
    have hu : u = -1074 := hnear.normal.resolve_left (by norm_num)
    rw [if_pos (by omega)] at heq
    exact .inl ⟨0, ⟨s, 0, u, hnear.toFits, by omega, heq, by simp⟩, le_rfl⟩
  · obtain rfl := sign_eq hpos hsign
    split at heq
    · refine .inl ⟨_, ⟨.positive, n, u, hnear.toFits, ‹_›, heq, rfl⟩, ?_⟩
      rw [sgn]
      positivity
    · exact .inr heq

theorem Settles.within_of_le (h : Settles x.decoded v) (hk : k ≤ 1023)
    (hle : ∀ n u, Near |v| n u → (n : ℚ) * 2 ^ u ≤ 2 ^ k) : Within k x := by
  obtain ⟨s, n, u, hnear, -, heq⟩ := h
  have hbound := hle n u hnear
  have hu : u ≤ 971 := hnear.unit_le hk hbound
  rw [if_pos hu] at heq
  refine ⟨_, ⟨s, n, u, hnear.toFits, hu, heq, rfl⟩, ?_⟩
  rwa [abs_mul, abs_sgn, one_mul, abs_of_nonneg (by positivity)]

theorem Settles.within (h : Settles x.decoded v) (hleast : -1074 ≤ k) (hk : k ≤ 1023)
    (hv : |v| ≤ 2 ^ k) : Within k x :=
  h.within_of_le hk fun _ _ hnear => hnear.le_pow hleast hv

theorem Settles.absorbed (h : Settles x.decoded v) (hleast : -1074 ≤ k) (hk : k + 54 ≤ 1023)
    (hv : |v| ≤ 2 ^ (k + 54) + 2 ^ k) : Within (k + 54) x :=
  h.within_of_le hk fun _ _ hnear => hnear.absorb hleast hv

theorem Settles.atLeast (h : Settles x.decoded v) (hleast : -1074 ≤ k) (hv : 2 ^ k ≤ v)
    (hmost : v ≤ 2 ^ (1023 : ℤ)) : AtLeast k x := by
  obtain ⟨s, n, u, hnear, hsign, heq⟩ := h
  have hpos : 0 < v := (zpow_pos two_pos k).trans_le hv
  obtain rfl := sign_eq hpos hsign
  rw [abs_of_pos hpos] at hnear
  have hu : u ≤ 971 := hnear.unit_le le_rfl (hnear.le_pow (by norm_num) hmost)
  rw [if_pos hu] at heq
  refine ⟨_, ⟨.positive, n, u, hnear.toFits, hu, heq, rfl⟩, ?_⟩
  rw [sgn, one_mul]
  exact hnear.pow_le hleast hv

theorem Computes.settled {f : UnpackedFloat} (h : Computes f v) :
    Settles (repack (repack f)) v := by
  rw [h.settles.repack]
  exact h.settles

theorem settles_add (hx : Shows x.decoded v) (hy : Shows y.decoded w) :
    Settles (x + y).decoded (v + w) :=
  (add_computes hx hy).settled

theorem settles_sub (hx : Shows x.decoded v) (hy : Shows y.decoded w) :
    Settles (x - y).decoded (v - w) :=
  (sub_computes hx hy).settled

theorem settles_mul (hx : Shows x.decoded v) (hy : Shows y.decoded w) :
    Settles (x * y).decoded (v * w) :=
  (mul_computes hx hy).settled

theorem settles_div (hx : Shows x.decoded v) (hy : Shows y.decoded w) (hw : w ≠ 0) :
    Settles (x / y).decoded (v / w) :=
  (div_computes hx hy hw).settled

theorem settles_sqrt (hx : Shows x.decoded v) (hv : 0 ≤ v) :
    ∃ w, 0 ≤ w ∧ Settles x.sqrt.decoded w ∧ ∀ k : ℤ, v ≤ 2 ^ (2 * k) → w ≤ 2 ^ k := by
  obtain ⟨w, hw, hcomputes, hmost⟩ := sqrt_computes hx hv
  exact ⟨w, hw, hcomputes.settled, hmost⟩

theorem Within.add {j : ℤ} (hx : Within j x) (hy : Within j y) (hj : -1074 ≤ j)
    (hj' : j + 1 ≤ 1023) : Within (j + 1) (x + y) := by
  obtain ⟨v, hv, hle⟩ := hx
  obtain ⟨w, hw, hle'⟩ := hy
  refine (settles_add hv hw).within (by omega) hj' ((abs_add_le v w).trans ?_)
  rw [zpow_add_one₀ two_ne_zero]
  linarith

theorem Within.sub {j : ℤ} (hx : Within j x) (hy : Within j y) (hj : -1074 ≤ j)
    (hj' : j + 1 ≤ 1023) : Within (j + 1) (x - y) := by
  obtain ⟨v, hv, hle⟩ := hx
  obtain ⟨w, hw, hle'⟩ := hy
  refine (settles_sub hv hw).within (by omega) hj' ((abs_sub v w).trans ?_)
  rw [zpow_add_one₀ two_ne_zero]
  linarith

-- One more term has no effect on a sum that is near its bound.
theorem Within.add_term (hx : Within (k + 54) x) (hy : Within k y) (hk : -1074 ≤ k)
    (hk' : k + 54 ≤ 1023) : Within (k + 54) (x + y) := by
  obtain ⟨v, hv, hle⟩ := hx
  obtain ⟨w, hw, hle'⟩ := hy
  exact (settles_add hv hw).absorbed hk hk' ((abs_add_le v w).trans (add_le_add hle hle'))

theorem Within.mul_self (hx : Within k x) (hk : -1074 ≤ 2 * k) (hk' : 2 * k ≤ 1023) :
    Within (2 * k) (x * x) := by
  obtain ⟨v, hv, hle⟩ := hx
  refine (settles_mul hv hv).within hk hk' ?_
  rw [abs_mul, two_mul, zpow_add₀ two_ne_zero]
  exact mul_le_mul hle hle (abs_nonneg v) (zpow_pos two_pos k).le

theorem Within.div {j : ℤ} (hx : Within k x) (hy : AtLeast j y) (hk : -1074 ≤ k - j)
    (hk' : k - j ≤ 1023) : Within (k - j) (x / y) := by
  obtain ⟨v, hv, hle⟩ := hx
  obtain ⟨w, hw, hge⟩ := hy
  have hpow : (0 : ℚ) < 2 ^ j := zpow_pos two_pos j
  have hpos : 0 < w := hpow.trans_le hge
  refine (settles_div hv hw hpos.ne').within hk hk' ?_
  rw [abs_div, abs_of_pos hpos, zpow_sub₀ two_ne_zero]
  exact div_le_div₀ (zpow_pos two_pos k).le hle hpow hge

theorem Within.magnitude (hx : Within k x) (hnonneg : Nonneg x) :
    ∃ v, Shows x.decoded v ∧ 0 ≤ v ∧ v ≤ 2 ^ k := by
  obtain ⟨v, hv, hle⟩ := hx
  refine ⟨v, hv, ?_, (le_abs_self v).trans hle⟩
  rcases hnonneg with ⟨w, hw, hpos⟩ | hinf
  · rwa [hv.unique hw]
  · exact absurd hinf (hv.ne_infinity _)

theorem Within.sqrt (hx : Within (2 * k) x) (hnonneg : Nonneg x) (hk : -1074 ≤ k)
    (hk' : k ≤ 1023) : Within k x.sqrt := by
  obtain ⟨v, hv, hpos, hle⟩ := hx.magnitude hnonneg
  obtain ⟨w, hw, hsettles, hmost⟩ := settles_sqrt hv hpos
  refine hsettles.within hk hk' ?_
  rw [abs_of_nonneg hw]
  exact hmost k hle

theorem AtLeast.mono {j : ℤ} (h : AtLeast j x) (hkj : k ≤ j) : AtLeast k x := by
  obtain ⟨v, hv, hge⟩ := h
  exact ⟨v, hv, (zpow_le_zpow_right₀ one_le_two hkj).trans hge⟩

theorem AtLeast.div {j m : ℤ} (hx : AtLeast j x) (hx' : Within m x) (hy : AtLeast 0 y)
    (hy' : Within k y) (hleast : -1074 ≤ j - k) (hm : m ≤ 1023) : AtLeast (j - k) (x / y) := by
  obtain ⟨v, hv, hge⟩ := hx
  obtain ⟨v', hv', hle⟩ := hx'
  obtain ⟨w, hw, hone⟩ := hy
  obtain ⟨w', hw', hle'⟩ := hy'
  obtain rfl := hv.unique hv'
  obtain rfl := hw.unique hw'
  rw [zpow_zero] at hone
  have hpos : 0 < w := one_pos.trans_le hone
  have hvpos : 0 ≤ v := (zpow_pos two_pos j).le.trans hge
  rw [abs_of_nonneg hvpos] at hle
  rw [abs_of_pos hpos] at hle'
  refine (settles_div hv hw hpos.ne').atLeast hleast ?_ ?_
  · rw [zpow_sub₀ two_ne_zero]
    exact div_le_div₀ hvpos hge hpos hle'
  · exact (div_le_self hvpos hone).trans (hle.trans (zpow_le_zpow_right₀ one_le_two hm))

theorem repack_of_infinity {f : UnpackedFloat} {s : Sign} (h : f = .infinity s) :
    repack (repack f) = .infinity s := by
  rw [h, repack_infinity, repack_infinity]

theorem Extended.add (hx : Extended x) (hy : y.isFinite = true) : Extended (x + y) := by
  obtain ⟨w, hw⟩ := shows_decoded hy
  rcases hx with hfinite | ⟨s, hs⟩
  · obtain ⟨v, hv⟩ := shows_decoded hfinite
    exact (settles_add hv hw).extended
  · refine .inr ⟨s, repack_of_infinity ?_⟩
    change UnpackedFloat.add Format.binary64 x.decoded y.decoded = _
    rw [hs]
    rcases hw.cases with ⟨t, ht, -⟩ | ⟨t, n, u, hn, -, ht, -⟩ <;> rw [ht] <;> rfl

theorem Extended.sub (hx : x.isFinite = true) (hy : Extended y) : Extended (x - y) := by
  obtain ⟨v, hv⟩ := shows_decoded hx
  rcases hy with hfinite | ⟨s, hs⟩
  · obtain ⟨w, hw⟩ := shows_decoded hfinite
    exact (settles_sub hv hw).extended
  · refine .inr ⟨-s, repack_of_infinity ?_⟩
    change UnpackedFloat.sub Format.binary64 x.decoded y.decoded = _
    rw [hs]
    rcases hv.cases with ⟨t, ht, -⟩ | ⟨t, n, u, hn, -, ht, -⟩ <;> rw [ht] <;> rfl

theorem AtLeast.cases (h : AtLeast k y) : ∃ w, Shows y.decoded w ∧ 0 < w ∧
    ∃ n u, ∃ hn : 0 < n, y.decoded = .finite .positive n u hn := by
  obtain ⟨w, hw, hge⟩ := h
  have hpos : 0 < w := (zpow_pos two_pos k).trans_le hge
  refine ⟨w, hw, hpos, ?_⟩
  rcases hw.cases with ⟨s, -, rfl⟩ | ⟨s, n, u, hn, -, hdecoded, rfl⟩
  · exact absurd hpos (lt_irrefl 0)
  · have hunit : (0 : ℚ) ≤ n * 2 ^ u := by positivity
    obtain rfl : s = .positive := by
      cases s with
      | positive => rfl
      | negative =>
        rw [sgn] at hpos
        linarith
    exact ⟨n, u, hn, hdecoded⟩

theorem div_of_infinity {s : Sign} (hx : x.decoded = .infinity s) (hy : AtLeast k y) :
    (x / y).decoded = .infinity s := by
  obtain ⟨-, -, -, n, u, hn, hdecoded⟩ := hy.cases
  refine repack_of_infinity ?_
  change UnpackedFloat.div Format.binary64 x.decoded y.decoded = _
  rw [hx, hdecoded]
  cases s <;> rfl

theorem Extended.div (hx : Extended x) (hy : AtLeast k y) : Extended (x / y) := by
  rcases hx with hfinite | ⟨s, hs⟩
  · obtain ⟨v, hv⟩ := shows_decoded hfinite
    obtain ⟨w, hw, hpos, -⟩ := hy.cases
    exact (settles_div hv hw hpos.ne').extended
  · exact .inr ⟨s, div_of_infinity hs hy⟩

theorem Nonneg.div (hx : Nonneg x) (hy : AtLeast k y) : Nonneg (x / y) := by
  rcases hx with ⟨v, hv, hpos⟩ | hinf
  · obtain ⟨w, hw, hw', -⟩ := hy.cases
    exact (settles_div hv hw hw'.ne').nonneg (div_nonneg hpos hw'.le)
  · exact .inr (div_of_infinity hinf hy)

theorem Nonneg.add (hx : Nonneg x) (hy : Nonneg y) : Nonneg (x + y) := by
  rcases hx with ⟨v, hv, hpos⟩ | hinf
  · rcases hy with ⟨w, hw, hpos'⟩ | hinf
    · exact (settles_add hv hw).nonneg (add_nonneg hpos hpos')
    · refine .inr (repack_of_infinity ?_)
      change UnpackedFloat.add Format.binary64 x.decoded y.decoded = _
      rw [hinf]
      rcases hv.cases with ⟨t, ht, -⟩ | ⟨t, n, u, hn, -, ht, -⟩ <;> rw [ht] <;> rfl
  · refine .inr (repack_of_infinity ?_)
    change UnpackedFloat.add Format.binary64 x.decoded y.decoded = _
    rw [hinf]
    rcases hy with ⟨w, hw, -⟩ | hinf'
    · rcases hw.cases with ⟨t, ht, -⟩ | ⟨t, n, u, hn, -, ht, -⟩ <;> rw [ht] <;> rfl
    · rw [hinf']
      rfl

theorem Extended.mul_self (hx : Extended x) : Nonneg (x * x) := by
  rcases hx with hfinite | ⟨s, hs⟩
  · obtain ⟨v, hv⟩ := shows_decoded hfinite
    exact (settles_mul hv hv).nonneg (mul_self_nonneg v)
  · refine .inr (repack_of_infinity ?_)
    change UnpackedFloat.mul Format.binary64 x.decoded x.decoded = _
    rw [hs]
    cases s <;> rfl

theorem Nonneg.sqrt (hx : Nonneg x) : Nonneg x.sqrt := by
  rcases hx with ⟨v, hv, hpos⟩ | hinf
  · obtain ⟨w, hw, hsettles, -⟩ := settles_sqrt hv hpos
    exact hsettles.nonneg hw
  · refine .inr (repack_of_infinity ?_)
    change UnpackedFloat.sqrt Format.binary64 x.decoded = _
    rw [hinf]
    rfl

theorem packed_notANumber : ofFloat (.ofModel (Float.Model.pack .notANumber)) = nan := by
  decide +kernel

theorem mul_of_isNaN (h : x.isNaN = true) : x * y = nan := by
  change ofFloat (.ofModel (.pack (UnpackedFloat.mul Format.binary64 x.decoded y.decoded))) = _
  rw [decoded, unpack_toFloat_of_isNaN h]
  exact packed_notANumber

theorem div_of_isNaN (h : x.isNaN = true) : x / y = nan := by
  change ofFloat (.ofModel (.pack (UnpackedFloat.div Format.binary64 x.decoded y.decoded))) = _
  rw [decoded, unpack_toFloat_of_isNaN h]
  exact packed_notANumber

theorem shows_toFloat {n : ℕ} (h : n < 2 ^ 53) : Shows n.toUInt64.toFloat.toModel.unpack n := by
  rcases Nat.eq_zero_or_pos n with rfl | hpos
  · exact ⟨.positive, 0, -1074, ⟨by norm_num, le_rfl, .inr rfl⟩, by norm_num, by rfl, by simp⟩
  · obtain ⟨m, u, hc, hwide, hvalue, hunpack⟩ := unpack_toFloat hpos.ne' h
    refine ⟨.positive, m, u, ⟨hc.lt, hc.least, .inl hwide⟩, hc.most, ?_, ?_⟩
    · rw [hunpack, signed_of_pos hc.pos]
    · rw [sgn, one_mul, hvalue]

theorem shows_one : Shows (Float.ofBits 0x3ff0000000000000).toModel.unpack 1 :=
  ⟨.positive, 2 ^ 52, -52, ⟨by norm_num, by norm_num, .inl le_rfl⟩, by norm_num, by rfl,
    by norm_num [sgn]⟩

theorem settles_ofScientific (n : ℕ) : Settles (ofFloat (Float.ofScientific n false 0)).decoded n := by
  by_cases hsmall : n < 2 ^ 53
  · have hfast : Float.ofScientific n false 0 =
        n.toUInt64.toFloat * Float.ofBits 0x3ff0000000000000 := by
      rw [Float.ofScientific, dif_pos ⟨hsmall, by norm_num⟩]
      rfl
    rw [hfast]
    have hproduct := mul_computes (shows_toFloat hsmall) shows_one
    rw [mul_one] at hproduct
    exact hproduct.settled
  · have hslow : Float.ofScientific n false 0 = Float.ofModel (Float.Model.ofScientific n 0) := by
      rw [Float.ofScientific, dif_neg (fun h => hsmall h.1)]
      rfl
    rw [hslow]
    have hwide : 2 ^ 52 ≤ n <<< 53 := by
      rw [Nat.shiftLeft_eq]
      omega
    have hcomputes : Computes (UnpackedFloat.ofScientific Format.binary64 n 0) n := by
      obtain ⟨k, u, hnear, hround⟩ := roundWithAccuracy_near .positive (standsFor_exact (n <<< 53))
        (le_targetExponent (e := -53) hwide)
      have hvalue : ((n <<< 53 : ℕ) : ℚ) * 2 ^ (-53 : ℤ) = n := by
        rw [Nat.shiftLeft_eq, Nat.cast_mul, Nat.cast_pow, Nat.cast_ofNat, mul_assoc,
          ← zpow_natCast, ← zpow_add₀ two_ne_zero]
        exact mul_one _
      rw [hvalue] at hnear
      have hproduct : UnpackedFloat.ofScientific Format.binary64 n 0 = signed .positive k u := by
        have hn : ¬ n = 0 := by omega
        rw [UnpackedFloat.ofScientific, dif_neg hn, if_neg (by norm_num),
          if_neg (by push_cast; omega), if_pos le_rfl, ← hround]
        simp only [UnpackedFloat.mul, Int.toNat_zero, pow_zero, mul_one, add_zero]
        rfl
      have hcomputes := computes_signed .positive (Nat.cast_nonneg n) hnear
      rwa [← hproduct, sgn, one_mul] at hcomputes
    exact hcomputes.settled

theorem settles_ofNat (n : ℕ) : Settles (ofNat n).decoded n :=
  settles_ofScientific n

theorem nonneg_ofNat (n : ℕ) : Nonneg (ofNat n) :=
  (settles_ofNat n).nonneg (Nat.cast_nonneg n)

theorem within_ofNat {n j : ℕ} (h : n ≤ 2 ^ j) (hj : j ≤ 1023) : Within j (ofNat n) := by
  refine (settles_ofNat n).within (by omega) (by omega) ?_
  rw [Nat.abs_cast, zpow_natCast]
  exact_mod_cast h

theorem atLeast_ofNat {n j : ℕ} (h : 2 ^ j ≤ n) (hn : n < 2 ^ 64) : AtLeast j (ofNat n) := by
  refine (settles_ofNat n).atLeast (by omega) ?_ ?_
  · rw [zpow_natCast]
    exact_mod_cast h
  · have hmost : (n : ℚ) ≤ 2 ^ (64 : ℤ) := by exact_mod_cast hn.le
    exact hmost.trans (zpow_le_zpow_right₀ one_le_two (by norm_num))

theorem lt_zero_iff (h : Shows x.decoded v) : x < 0 ↔ v < 0 := by
  have hlt : x < 0 ↔ UnpackedFloat.lt x.decoded (.zero .positive) = true := by
    rw [← unpack_zero]
    exact decide_eq_true_iff (p := x.toFloat.toModel < (0 : Binary64).toFloat.toModel)
  rw [hlt]
  rcases h.cases with ⟨s, hs, rfl⟩ | ⟨s, n, u, hn, -, hs, rfl⟩
  · rw [hs]
    simp [UnpackedFloat.lt, UnpackedFloat.compare]
  · have hunit : (0 : ℚ) < n * 2 ^ u := by positivity
    rw [hs]
    cases s <;> simp [UnpackedFloat.lt, UnpackedFloat.compare, sgn] <;> linarith

theorem zero_lt_iff (h : Shows x.decoded v) : 0 < x ↔ 0 < v := by
  have hlt : 0 < x ↔ UnpackedFloat.lt (.zero .positive) x.decoded = true := by
    rw [← unpack_zero]
    exact decide_eq_true_iff (p := (0 : Binary64).toFloat.toModel < x.toFloat.toModel)
  rw [hlt]
  rcases h.cases with ⟨s, hs, rfl⟩ | ⟨s, n, u, hn, -, hs, rfl⟩
  · rw [hs]
    simp [UnpackedFloat.lt, UnpackedFloat.compare]
  · have hunit : (0 : ℚ) < n * 2 ^ u := by positivity
    rw [hs]
    cases s <;> simp [UnpackedFloat.lt, UnpackedFloat.compare, sgn] <;> linarith

theorem lt_zero_iff_isNegative (hx : x.isFinite = true) (hzero : x.isZero = false) :
    x < 0 ↔ x.isNegative = true := by
  obtain ⟨n, u, hfits, hu, hdecoded⟩ := decoded_signed hx
  have hn : 0 < n := by
    rw [Nat.pos_iff_ne_zero]
    rintro rfl
    rw [isZero_of_unpack ((decoded_eq_unpack hx).symm.trans hdecoded)] at hzero
    cases hzero
  have hunit : (0 : ℚ) < n * 2 ^ u := by positivity
  rw [lt_zero_iff ⟨_, n, u, hfits, hu, hdecoded, rfl⟩, ofBitVec_unpackSign]
  split
  · rename_i hneg
    simpa [sgn, hneg] using hunit
  · rename_i hneg
    simpa [sgn, hneg] using hunit.le

theorem atLeast_of_pos (hx : x.isFinite = true) (hpos : 0 < x) : AtLeast (-1074) x := by
  obtain ⟨v, hv⟩ := shows_decoded hx
  refine ⟨v, hv, ?_⟩
  have hvpos := (zero_lt_iff hv).mp hpos
  obtain ⟨s, n, u, hfits, -, -, rfl⟩ := hv
  obtain rfl := sign_eq hvpos (by rw [mul_right_comm, sgn_mul_self]; positivity)
  rw [sgn, one_mul] at hvpos ⊢
  have hn : (1 : ℚ) ≤ n := by
    have : n ≠ 0 := by
      rintro rfl
      simp at hvpos
    exact_mod_cast Nat.one_le_iff_ne_zero.mpr this
  calc (2 : ℚ) ^ (-1074 : ℤ) ≤ 2 ^ u := zpow_le_zpow_right₀ one_le_two hfits.least
    _ ≤ n * 2 ^ u := le_mul_of_one_le_left (zpow_pos two_pos u).le hn

theorem nonneg_of_not_lt (hx : x.isFinite = true) (h : ¬ x < 0) : Nonneg x := by
  obtain ⟨v, hv⟩ := shows_decoded hx
  exact .inl ⟨v, hv, not_lt.mp fun hlt => h ((lt_zero_iff hv).mpr hlt)⟩

theorem nonneg_abs (h : x.isFinite = true) : Nonneg x.abs := by
  obtain ⟨n, u, hfits, hu, hdecoded⟩ := decoded_signed ((isFinite_abs x).trans h)
  rw [ofBitVec_unpackSign, isNegative_abs] at hdecoded
  refine .inl ⟨_, ⟨.positive, n, u, hfits, hu, hdecoded, rfl⟩, ?_⟩
  rw [sgn]
  positivity

theorem not_lt_of_nonneg (h : Nonneg x) (hx : x.isFinite = true) : ¬ x < 0 := by
  obtain ⟨v, hv⟩ := shows_decoded hx
  rcases h with ⟨w, hw, hpos⟩ | hinf
  · rw [lt_zero_iff hw]
    exact not_lt.mpr hpos
  · exact absurd hinf (hv.ne_infinity _)

end StatsDaemon.Binary64
