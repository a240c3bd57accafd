import StatsDaemon.Proofs.Binary64.Counts
import StatsDaemon.Summary

namespace StatsDaemon.Percentile

open Binary64 (Shows Near)

section Cut

variable {α : Type} [Number α]

theorem length_cut {sorted : List α} {threshold : α}
    (h : rank threshold sorted.length ≤ sorted.length) :
    (cut sorted threshold).length = rank threshold sorted.length := by
  unfold cut
  split
  · rw [List.length_take, min_eq_left h]
  · rw [List.length_drop]
    omega

theorem compute_eq_none_iff {sorted : List α} {threshold : α} :
    compute sorted threshold = none ↔ cut sorted threshold = [] := by
  unfold compute
  rw [Option.map_eq_none_iff]
  split
  · exact List.getLast?_eq_none_iff
  · exact List.head?_eq_none_iff

theorem count_of_compute {sorted : List α} {threshold : α} {p : Percentile α}
    (h : compute sorted threshold = some p) : p.count = rank threshold sorted.length := by
  obtain ⟨bound, -, rfl⟩ := Option.map_eq_some_iff.mp h
  rfl

end Cut

def ofPercent (percent : ℤ) : Binary64 :=
  (Binary64.ofNat percent.natAbs).withSign (percent < 0)

-- The percentages whose hundredth part is rounded down by more than a part in `2 ^ 54`.
def short : List ℕ :=
  [29, 35, 41, 47, 57, 58, 69, 70, 82, 94]

structure Hundredth (percent : ℕ) (w : ℚ) : Prop where
  pos : 0 < w
  le_one : w ≤ 1
  near : |w - percent / 100| ≤ 1 / 2 ^ 53
  close : percent ∉ short → (percent / 100 : ℚ) * (1 - 1 / 2 ^ 54) < w

-- A test in whole numbers, in units of `2 ^ (-60)`.
def isHundredth (percent : ℕ) (x : Binary64) : Bool :=
  let w := x.significand * 2 ^ (x.unit + 60).toNat
  x.isFinite && !x.isNegative && -60 ≤ x.unit && 0 < w && w ≤ 2 ^ 60 &&
    100 * w ≤ percent * 2 ^ 60 + 100 * 2 ^ 7 && percent * 2 ^ 60 ≤ 100 * w + 100 * 2 ^ 7 &&
    (short.contains percent || percent * 2 ^ 60 < 100 * w + percent * 2 ^ 6)

theorem isHundredth_sound {percent : ℕ} {x : Binary64} (h : isHundredth percent x = true) :
    ∃ w, Shows x.decoded w ∧ Hundredth percent w := by
  simp only [isHundredth, Bool.and_eq_true, Bool.or_eq_true, Bool.not_eq_true',
    decide_eq_true_eq, List.contains_iff_mem] at h
  obtain ⟨⟨⟨⟨⟨⟨⟨hfinite, hsign⟩, hunit⟩, hpos⟩, hle⟩, hupper⟩, hlower⟩, hclose⟩ := h
  have hvalue : (x.significand : ℚ) * 2 ^ x.unit =
      ((x.significand * 2 ^ (x.unit + 60).toNat : ℕ) : ℚ) / 2 ^ 60 := by
    rw [eq_div_iff (by norm_num), Nat.cast_mul, Nat.cast_pow, Nat.cast_ofNat, mul_assoc,
      ← zpow_natCast, ← zpow_natCast, ← zpow_add₀ two_ne_zero]
    congr 2
    push_cast
    omega
  refine ⟨_, Binary64.shows_significand hfinite hsign, ?_⟩
  rw [hvalue]
  generalize x.significand * 2 ^ (x.unit + 60).toNat = w at *
  have hpos' : (0 : ℚ) < w := by exact_mod_cast hpos
  have hle' : (w : ℚ) ≤ 2 ^ 60 := by exact_mod_cast hle
  have hupper' : (100 : ℚ) * w ≤ percent * 2 ^ 60 + 100 * 2 ^ 7 := by exact_mod_cast hupper
  have hlower' : (percent : ℚ) * 2 ^ 60 ≤ 100 * w + 100 * 2 ^ 7 := by exact_mod_cast hlower
  constructor
  · positivity
  · rw [div_le_one (by norm_num)]
    exact hle'
  · rw [abs_le]
    norm_num at hupper' hlower' ⊢
    constructor <;> linarith
  · intro hshort
    have hclose' : (percent : ℚ) * 2 ^ 60 < 100 * w + percent * 2 ^ 6 := by
      exact_mod_cast hclose.resolve_left hshort
    norm_num at hclose' ⊢
    linarith

theorem isHundredth_all : ∀ percent ∈ List.range' 1 100,
    isHundredth percent (Binary64.ofNat percent / Binary64.ofNat 100) = true := by
  decide +kernel

theorem abs_ofPercent {percent : ℤ} (h : percent ≠ 0) (hle : percent.natAbs ≤ 100) :
    (ofPercent percent).abs = Binary64.ofNat percent.natAbs := by
  have hpos : (0 : ℚ) < percent.natAbs := by exact_mod_cast Int.natAbs_pos.mpr h
  have hshows := Binary64.shows_ofNat (hle.trans_lt (by norm_num))
  rw [ofPercent, Binary64.abs_withSign,
    Binary64.abs_of_not_isNegative (Binary64.isNegative_of_pos hshows hpos)]

-- The product that is rounded to a rank is near the exact one, and at a half it is not below
-- unless the percentage is one of the short.
structure Product (percent count : ℕ) (y : ℚ) : Prop where
  near : |y - percent * count / 100| < 1 / 100
  half : percent ∉ short → percent * count % 100 = 50 → (percent * count / 100 : ℚ) ≤ y

theorem product_shows {percent count : ℕ} (hpos : 0 < percent) (hle : percent ≤ 100)
    (hcount : 0 < count) (hmost : count ≤ 2 ^ 45) :
    ∃ y, Shows (Binary64.ofNat percent / Binary64.ofNat 100 * Binary64.ofNat count).decoded y ∧
      Product percent count y := by
  obtain ⟨w, hw, hhundredth⟩ := isHundredth_sound (isHundredth_all percent
    (List.mem_range'_1.mpr ⟨hpos, by omega⟩))
  have hn : (0 : ℚ) < count := by exact_mod_cast hcount
  have hnle : (count : ℚ) ≤ 2 ^ 45 := by exact_mod_cast hmost
  have hsettles := Binary64.settles_mul hw (Binary64.shows_ofNat (hmost.trans_lt (by norm_num)))
  have hproduct : w * count ≤ 2 ^ (45 : ℤ) :=
    (mul_le_of_le_one_left hn.le hhundredth.le_one).trans (by exact_mod_cast hmost)
  obtain ⟨m, u, hnear, hshows⟩ :=
    hsettles.shows (mul_pos hhundredth.pos hn) (by norm_num) (by norm_num) hproduct
  refine ⟨_, hshows, ?_, fun hshort hhalf => ?_⟩
  -- The error of the hundredth grows with the count, but up to `2 ^ 45` it stays small enough.
  · have herror := hnear.error (by norm_num) hproduct
    have hscaled : |w * count - percent * count / 100| ≤ 1 / 2 ^ 53 * 2 ^ 45 := by
      rw [mul_div_right_comm, ← sub_mul, abs_mul, abs_of_pos hn]
      exact mul_le_mul hhundredth.near hnle hn.le (by norm_num)
    rw [abs_le] at herror hscaled
    rw [abs_lt]
    norm_num at herror hscaled
    constructor <;> linarith
  -- At a half, rounding the product does not go below it, since the half is a double itself.
  · obtain ⟨r, hr⟩ : ∃ r, percent * count = 100 * r + 50 := ⟨percent * count / 100, by omega⟩
    have hexact : (percent * count / 100 : ℚ) = r + 1 / 2 := by
      rw [← Nat.cast_mul, hr]
      push_cast
      ring
    have hbound : percent * count ≤ 100 * 2 ^ 45 := Nat.mul_le_mul hle hmost
    rw [hexact]
    refine hnear.half_le (by omega) ?_
    rw [← hexact, mul_div_right_comm, mul_right_comm]
    exact mul_lt_mul_of_pos_right (hhundredth.close hshort) hn

theorem floor_product {percent count : ℕ} {y : ℚ} (h : Product percent count y)
    (hpos : 0 < percent * count) :
    ⌊y + 1 / 2⌋₊ = (percent * count + 50) / 100 ∨
      percent ∈ short ∧ percent * count % 100 = 50 ∧
        ⌊y + 1 / 2⌋₊ + 1 = (percent * count + 50) / 100 := by
  have hnear := abs_lt.mp h.near
  have hhalf := h.half
  have hone : (1 : ℚ) ≤ percent * count := by exact_mod_cast hpos
  rw [← Nat.cast_mul] at hnear hhalf hone
  obtain ⟨e, s, hs, hexact⟩ : ∃ e s, s < 100 ∧ percent * count + 50 = 100 * e + s :=
    ⟨_, _, Nat.mod_lt _ (by norm_num), (Nat.div_add_mod _ 100).symm⟩
  have hquotient : (percent * count + 50) / 100 = e := by omega
  have hrat : ((percent * count : ℕ) : ℚ) + 50 = 100 * e + s := by exact_mod_cast hexact
  have hnonneg : (0 : ℚ) ≤ y + 1 / 2 := by linarith
  have hs' : (s : ℚ) + 1 ≤ 100 := by exact_mod_cast hs
  rw [hquotient, Nat.floor_eq_iff hnonneg]
  by_cases hbelow : y + 1 / 2 < e
  · -- Below the half, which it can only be from less than a hundredth away.
    have hs0 : s = 0 := by
      by_contra hne
      have : (1 : ℚ) ≤ s := by exact_mod_cast Nat.pos_of_ne_zero hne
      linarith
    subst hs0
    have htie : percent * count % 100 = 50 := by omega
    refine .inr ⟨by_contra fun hshort => ?_, htie, ?_⟩
    · have := hhalf hshort htie
      rw [Nat.cast_zero] at hrat
      linarith
    · obtain ⟨r, rfl⟩ : ∃ r, e = r + 1 := ⟨e - 1, by omega⟩
      refine congrArg (· + 1) ((Nat.floor_eq_iff hnonneg).mpr ?_)
      rw [Nat.cast_succ] at hrat hbelow
      rw [Nat.cast_zero] at hrat
      constructor <;> linarith
  · exact .inl ⟨not_lt.mp hbelow, by linarith⟩

def nearestRank (percent : ℤ) (count : ℕ) : ℕ :=
  (round (|percent| * count / 100 : ℚ)).toNat

theorem nearestRank_eq (percent : ℤ) (count : ℕ) :
    nearestRank percent count = (percent.natAbs * count + 50) / 100 := by
  have hquotient : (|percent| * count / 100 : ℚ) + 1 / 2 =
      ((percent.natAbs * count + 50 : ℕ) : ℚ) / ((100 : ℕ) : ℚ) := by
    push_cast
    rw [← Int.cast_abs, Int.abs_eq_natAbs, Int.cast_natCast]
    ring
  rw [nearestRank, round_eq, hquotient, Rat.floor_natCast_div_natCast]
  rfl

theorem rank_ofPercent {percent : ℤ} {count : ℕ} (h : percent ≠ 0) (hle : percent.natAbs ≤ 100)
    (hcount : 2 ≤ count) (hmost : count ≤ 2 ^ 45) :
    rank (ofPercent percent) count = nearestRank percent count ∨
      percent.natAbs ∈ short ∧ percent.natAbs * count % 100 = 50 ∧
        rank (ofPercent percent) count + 1 = nearestRank percent count := by
  have hpos := Int.natAbs_pos.mpr h
  obtain ⟨y, hshows, hproduct⟩ := product_shows hpos hle (by omega) hmost
  have hbound : percent.natAbs * count ≤ 100 * count := Nat.mul_le_mul_right count hle
  have hmul : 0 < percent.natAbs * count := Nat.mul_pos hpos (by omega)
  have hcases := floor_product hproduct hmul
  have hy : 0 < y := by
    have hnear := abs_lt.mp hproduct.near
    have : (1 : ℚ) * 2 ≤ percent.natAbs * count := by
      exact_mod_cast Nat.mul_le_mul hpos hcount
    linarith
  have hlarge : y < 2 ^ 63 := by
    have hnear := abs_lt.mp hproduct.near
    have : (percent.natAbs * count : ℚ) ≤ 100 * 2 ^ 45 := by
      exact_mod_cast Nat.mul_le_mul hle hmost
    linarith
  have hround : Binary64.roundToCount
      (Binary64.abs (ofPercent percent) / Binary64.ofNat 100 * Binary64.ofNat count) =
        ⌊y + 1 / 2⌋₊ := by
    rw [abs_ofPercent h hle]
    exact Binary64.roundToCount_eq hshows hy hlarge
  have hrank : rank (ofPercent percent) count = min ⌊y + 1 / 2⌋₊ count := by
    rw [← hround]
    exact if_neg (by omega)
  rw [hrank, nearestRank_eq, min_eq_left (by omega)]
  exact hcases

-- A cut at a whole percentage has the nearest rank, or at a half one sample less if the percentage
-- is one of the short, and it is left out if and only if the nearest rank is zero. A list of
-- `2 ^ 45` doubles would fill the memory that can be addressed.
theorem whole_percent_cut {percent : ℤ} {sorted : List Binary64} (hlow : 1 ≤ |percent|)
    (hhigh : |percent| ≤ 100) (htwo : 2 ≤ sorted.length) (hmost : sorted.length ≤ 2 ^ 45) :
    ((cut sorted (ofPercent percent)).length = nearestRank percent sorted.length ∨
      percent.natAbs ∈ short ∧ percent.natAbs * sorted.length % 100 = 50 ∧
        (cut sorted (ofPercent percent)).length + 1 = nearestRank percent sorted.length) ∧
    (compute sorted (ofPercent percent) = none ↔ nearestRank percent sorted.length = 0) ∧
    ∀ p, compute sorted (ofPercent percent) = some p →
      p.count = (cut sorted (ofPercent percent)).length := by
  have hne : percent ≠ 0 := abs_pos.mp (by omega)
  have hle : percent.natAbs ≤ 100 := by
    rw [Int.abs_eq_natAbs] at hhigh
    exact_mod_cast hhigh
  have hrank := rank_ofPercent hne hle htwo hmost
  have hnearest := nearestRank_eq percent sorted.length
  have hbound : percent.natAbs * sorted.length ≤ 100 * sorted.length :=
    Nat.mul_le_mul_right _ hle
  have hlength : (cut sorted (ofPercent percent)).length = rank (ofPercent percent) sorted.length :=
    length_cut (by omega)
  refine ⟨by rwa [hlength], ?_, fun p hp => ?_⟩
  · rw [compute_eq_none_iff, ← List.length_eq_zero_iff, hlength]
    rcases hrank with hexact | ⟨hshort, hhalf, hless⟩
    · rw [hexact]
    · -- None of the short is below 29, and then the rank that is missed is not the first one.
      have hlarge : ∀ p ∈ short, 29 ≤ p := by decide
      have := Nat.mul_le_mul (hlarge _ hshort) htwo
      omega
  · rw [hlength, count_of_compute hp]

def fifty : List Binary64 :=
  (List.range' 1 50).map Binary64.ofNat

theorem nine_tenths_cut :
    ((cut fifty (ofPercent (-90))).length = nearestRank (-90) fifty.length ∨
      Int.natAbs (-90) ∈ short ∧ Int.natAbs (-90) * fifty.length % 100 = 50 ∧
        (cut fifty (ofPercent (-90))).length + 1 = nearestRank (-90) fifty.length) ∧
    (compute fifty (ofPercent (-90)) = none ↔ nearestRank (-90) fifty.length = 0) ∧
    ∀ p, compute fifty (ofPercent (-90)) = some p →
      p.count = (cut fifty (ofPercent (-90))).length :=
  whole_percent_cut (by decide) (by decide) (by decide) (by decide)

-- Of fifty samples, 29 percent are 14.5, and the cut has 14.
theorem short_cut :
    (cut fifty (ofPercent 29)).length = 14 ∧ nearestRank 29 fifty.length = 15 := by
  refine ⟨?_, ?_⟩
  · decide +kernel
  · rw [nearestRank_eq]
    rfl

end StatsDaemon.Percentile
