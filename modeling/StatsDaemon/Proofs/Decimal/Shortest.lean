import StatsDaemon.Decimal.Shortest
import StatsDaemon.Proofs.Binary64.Nearest

namespace StatsDaemon.Decimal

open Binary64

def Digits.value (d : Digits) : ℚ :=
  d.digits * 10 ^ d.exponent

structure Interval.Has (i : Interval) (v : ℚ) : Prop where
  lower : (i.low : ℚ) ≤ v * i.scale
  upper : v * i.scale ≤ i.high
  inner : i.closed = false → (i.low : ℚ) < v * i.scale ∧ v * i.scale < i.high

theorem scale_pow (d : ℕ) (scale : ℕ) (e : ℤ) :
    ((d * (scale * 10 ^ e.toNat) : ℕ) : ℚ) = d * 10 ^ e * scale * (10 ^ (-e).toNat : ℕ) := by
  have hpow : (10 : ℚ) ^ e * 10 ^ (-e).toNat = 10 ^ e.toNat := by
    rw [← zpow_natCast, ← zpow_natCast, ← zpow_add₀ (by norm_num)]
    congr 1
    omega
  push_cast
  rw [← hpow]
  ring

theorem Interval.has_of_holds {i : Interval} {d : ℕ} {e : ℤ}
    (h : i.holds (10 ^ (-e).toNat) (d * (i.scale * 10 ^ e.toNat)) = true) :
    i.Has (d * 10 ^ e) := by
  have hvalue := scale_pow d i.scale e
  have hpos : (0 : ℚ) < (10 ^ (-e).toNat : ℕ) := by positivity
  generalize 10 ^ (-e).toNat = q at h hvalue hpos
  unfold Interval.holds at h
  split at h <;> simp only [Bool.and_eq_true, decide_eq_true_eq] at h <;> rename_i hclosed
  · have hlower : (i.low : ℚ) * q ≤ d * 10 ^ e * i.scale * q := hvalue ▸ (by exact_mod_cast h.1)
    have hupper : d * 10 ^ e * i.scale * q ≤ (i.high : ℚ) * q := hvalue ▸ (by exact_mod_cast h.2)
    exact ⟨le_of_mul_le_mul_right hlower hpos, le_of_mul_le_mul_right hupper hpos,
      fun hopen => absurd hclosed (by simp [hopen])⟩
  · have hlower : (i.low : ℚ) * q < d * 10 ^ e * i.scale * q := hvalue ▸ (by exact_mod_cast h.1)
    have hupper : d * 10 ^ e * i.scale * q < (i.high : ℚ) * q := hvalue ▸ (by exact_mod_cast h.2)
    have hlt := lt_of_mul_lt_mul_right hlower hpos.le
    have hgt := lt_of_mul_lt_mul_right hupper hpos.le
    exact ⟨hlt.le, hgt.le, fun _ => ⟨hlt, hgt⟩⟩

theorem Interval.has_of_onGrid {i : Interval} {tie : Tie} {e : ℤ} {d : ℕ}
    (h : i.onGrid tie e = some d) : i.Has (d * 10 ^ e) := by
  refine has_of_holds ?_
  unfold onGrid at h
  dsimp only at h
  split at h
  · cases h
  · rename_i hbelow _
    obtain rfl := Option.some.inj h
    exact hbelow
  · rename_i _ habove
    obtain rfl := Option.some.inj h
    exact habove
  · -- Both neighbours read back, and any of them may be taken.
    rename_i hbelow habove
    have hneighbour : d = i.middle * Nat.pow 10 (-e).toNat / (i.scale * Nat.pow 10 e.toNat) ∨
        d = i.middle * Nat.pow 10 (-e).toNat / (i.scale * Nat.pow 10 e.toNat) + 1 := by
      split at h
      · exact .inl (Option.some.inj h).symm
      · split at h
        · exact .inr (Option.some.inj h).symm
        · cases tie with
          | up => exact .inr (Option.some.inj h).symm
          | toEven =>
            dsimp only at h
            split at h
            · exact .inl (Option.some.inj h).symm
            · exact .inr (Option.some.inj h).symm
    rcases hneighbour with rfl | rfl
    · exact hbelow
    · exact habove

theorem value_stripZeros (fuel : ℕ) (d : Digits) : (stripZeros fuel d).value = d.value := by
  induction fuel generalizing d with
  | zero => rfl
  | succ fuel ih =>
    unfold stripZeros
    split
    · rename_i hzero
      rw [ih]
      have hdigits : (d.digits : ℚ) = (d.digits / 10 : ℕ) * 10 := by
        exact_mod_cast (Nat.div_mul_cancel (Nat.dvd_of_mod_eq_zero hzero.2)).symm
      simp only [Digits.value, zpow_add_one₀ (by norm_num : (10 : ℚ) ≠ 0)]
      rw [hdigits]
      ring
    · rfl

theorem Interval.has_of_search {i : Interval} {tie : Tie} {length : ℤ} {fuel n : ℕ} {d : Digits}
    (h : i.search tie length fuel n = some d) : i.Has d.value := by
  induction fuel generalizing n with
  | zero => cases h
  | succ fuel ih =>
    unfold search at h
    split at h
    · rename_i found hfound
      obtain rfl := Option.some.inj h
      rw [value_stripZeros]
      exact has_of_onGrid hfound
    · exact ih h

theorem pow_split (k : ℤ) : ((2 ^ k.toNat : ℕ) : ℚ) = 2 ^ k * (2 ^ (-k).toNat : ℕ) := by
  push_cast
  rw [← zpow_natCast, ← zpow_natCast, ← zpow_add₀ two_ne_zero]
  congr 1
  omega

theorem narrow_iff (x : Binary64) :
    (x.fraction = 0 ∧ 1 < x.biasedExponent) ↔ (x.significand = 2 ^ 52 ∧ -1074 < x.unit) := by
  have hfraction := x.fraction_lt
  simp only [significand, unit]
  split <;> omega

theorem low_around (x : Binary64) (hc : Canonical x.significand x.unit) :
    ((Interval.around x).low : ℚ) = (x.significand -
      if x.significand = 2 ^ 52 ∧ -1074 < x.unit then 1 / 4 else 1 / 2) * 2 ^ x.unit *
        (Interval.around x).scale := by
  have hpos := hc.pos
  have hup := pow_split (x.unit - 2)
  have hquarter : (2 : ℚ) ^ x.unit = 2 ^ (x.unit - 2) * 4 := by
    rw [zpow_sub₀ two_ne_zero]
    norm_num
  simp only [Interval.around, narrow_iff, Nat.pow_eq]
  rw [Nat.cast_mul, hup, hquarter]
  split
  · rw [Nat.cast_sub (by omega)]
    push_cast
    ring
  · rw [Nat.cast_sub (by omega)]
    push_cast
    ring

theorem high_around (x : Binary64) :
    ((Interval.around x).high : ℚ) = (x.significand + 1 / 2) * 2 ^ x.unit *
      (Interval.around x).scale := by
  have hup := pow_split (x.unit - 2)
  have hquarter : (2 : ℚ) ^ x.unit = 2 ^ (x.unit - 2) * 4 := by
    rw [zpow_sub₀ two_ne_zero]
    norm_num
  simp only [Interval.around, Nat.pow_eq]
  rw [Nat.cast_mul, hup, hquarter]
  push_cast
  ring

theorem roundsTo_of_has (x : Binary64) (hc : Canonical x.significand x.unit) {v : ℚ}
    (h : (Interval.around x).Has v) : RoundsTo v x.significand x.unit := by
  have hscale : (0 : ℚ) < (Interval.around x).scale := by
    simp only [Interval.around, Nat.pow_eq]
    positivity
  refine ⟨?_, ?_, fun hodd => ?_⟩
  · exact le_of_mul_le_mul_right (low_around x hc ▸ h.lower) hscale
  · exact le_of_mul_le_mul_right (high_around x ▸ h.upper) hscale
  · have hopen : (Interval.around x).closed = false := by simp [Interval.around, hodd]
    have hwide : ¬ (x.significand = 2 ^ 52 ∧ -1074 < x.unit) := fun hpow => by omega
    obtain ⟨hlower, hupper⟩ := h.inner hopen
    rw [low_around x hc, if_neg hwide] at hlower
    rw [high_around x] at hupper
    exact ⟨lt_of_mul_lt_mul_right hlower hscale.le, lt_of_mul_lt_mul_right hupper hscale.le⟩

theorem value_exact (x : Binary64) : (exact x).value = x.significand * 2 ^ x.unit := by
  unfold exact
  split
  · rename_i n hn
    rw [hn]
    simp [Digits.value]
  · rename_i n hn
    have hten : (10 : ℚ) ^ (n + 1) = 5 ^ (n + 1) * 2 ^ (n + 1) := by
      rw [← mul_pow]
      norm_num
    have hexponent : (-(n + 1 : ℤ)) = -((n + 1 : ℕ) : ℤ) := by push_cast; rfl
    rw [hn, Int.negSucc_eq, Digits.value, hexponent, zpow_neg, zpow_neg, zpow_natCast, zpow_natCast,
      hten, Nat.pow_eq, Nat.cast_mul, Nat.cast_pow, Nat.cast_ofNat]
    field_simp

theorem shortest_roundsTo (tie : Tie) (x : Binary64) (hc : Canonical x.significand x.unit) :
    RoundsTo (shortest tie x).value x.significand x.unit := by
  unfold shortest
  dsimp only
  cases hsearch : (Interval.around x).search tie (Interval.around x).decimalLength 17 1 with
  | none =>
    rw [Option.getD_none, value_exact]
    exact roundsTo_self _ _
  | some d => exact roundsTo_of_has x hc (Interval.has_of_search hsearch)

theorem shortest_digits_ne (tie : Tie) (x : Binary64) (hc : Canonical x.significand x.unit) :
    (shortest tie x).digits ≠ 0 := by
  intro hzero
  have hle := (shortest_roundsTo tie x hc).pow_le hc
  rw [Digits.value, hzero, Nat.cast_zero, zero_mul] at hle
  exact absurd hle (not_le.mpr (zpow_pos two_pos _))

end StatsDaemon.Decimal
