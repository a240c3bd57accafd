import StatsDaemon.Proofs.Binary64.Bounds
import StatsDaemon.Proofs.Summary.Indices
import StatsDaemon.Proofs.Summary.Order
import StatsDaemon.Proofs.Summary.Rank

namespace StatsDaemon

section Places

variable {β : Type}

-- The item at a place, counted from one: fewer are before it, and no fewer are not after it.
structure IsAt (le : β → β → Bool) (items : List β) (place : Nat) (x : β) : Prop where
  mem : x ∈ items
  before : items.countP (fun y => !le x y) < place
  upTo : place ≤ items.countP fun y => le y x

def AreFirst (le : β → β → Bool) (items inside : List β) : Prop :=
  ∃ rest, (inside ++ rest).Perm items ∧ ∀ x ∈ inside, ∀ y ∈ rest, le x y = true

variable {le : β → β → Bool} {items inside : List β} {x : β}

theorem AreFirst.mem (h : AreFirst le items inside) (hx : x ∈ inside) : x ∈ items := by
  obtain ⟨rest, hperm, -⟩ := h
  exact hperm.mem_iff.mp (List.mem_append_left rest hx)

theorem AreFirst.isAt (h : AreFirst le items inside) (hx : x ∈ inside)
    (hlast : ∀ y ∈ inside, le y x = true) : IsAt le items inside.length x where
  mem := h.mem hx
  before := by
    obtain ⟨rest, hperm, hfirst⟩ := h
    have hnone : rest.countP (fun y => !le x y) = 0 := by
      rw [List.countP_eq_zero]
      intro y hy
      simp [hfirst x hx y hy]
    have hless : inside.countP (fun y => !le x y) < inside.length := by
      rw [List.countP_lt_length_iff]
      exact ⟨x, hx, by simp [hlast x hx]⟩
    rw [← hperm.countP_eq, List.countP_append]
    omega
  upTo := by
    obtain ⟨rest, hperm, -⟩ := h
    have hall : inside.countP (fun y => le y x) = inside.length := List.countP_eq_length.mpr hlast
    rw [← hperm.countP_eq, List.countP_append]
    omega

end Places

namespace Percentile

def floatRank (threshold : Binary64) (count : Nat) : Nat :=
  if threshold.isNaN then 0
  else (threshold.abs / Binary64.ofNat 100 * Binary64.ofNat count).roundToCount

def countAt (threshold : Binary64) (count : Nat) : Nat :=
  if count = 1 then 1 else min (floatRank threshold count) count

theorem rank_eq (threshold : Binary64) (count : Nat) :
    rank threshold count = countAt threshold count := by
  unfold countAt floatRank
  by_cases hnan : threshold.isNaN = true
  · have habs : threshold.abs.isNaN = true := (Binary64.isNaN_abs threshold).trans hnan
    have hproduct :
        threshold.abs / Binary64.ofNat 100 * Binary64.ofNat count = Binary64.nan := by
      rw [Binary64.div_of_isNaN habs]
      exact Binary64.mul_of_isNaN rfl
    have hrounds : (threshold.abs / Binary64.ofNat 100 * Binary64.ofNat count).roundToCount = 0 := by
      rw [hproduct]
      rfl
    rw [if_pos hnan, ← hrounds]
    rfl
  · rw [if_neg hnan]
    rfl

-- The order in which a threshold counts: from below, or else from above.
def order (threshold : Binary64) (x y : Binary64) : Bool :=
  if 0 ≤ threshold then x.totalLe y else y.totalLe x

structure Cuts (p : Percentile Binary64) (samples : List Binary64) : Prop where
  count : p.count = countAt p.threshold samples.length
  pos : 1 ≤ p.count
  le : p.count ≤ samples.length
  bound : IsAt (order p.threshold) samples p.count p.bound
  -- The samples inside, from the least to the greatest, are what the figures are taken over.
  inside : ∃ inside : List Binary64, inside.length = p.count ∧
    inside.Pairwise (fun x y => x.totalLe y = true) ∧
    AreFirst (order p.threshold) samples inside ∧
    p.sum = Number.sum inside ∧
    p.mean = p.sum / Binary64.ofNat p.count ∧
    p.sumSquares = Number.sum (inside.map fun x => x * x)

variable {samples sorted : List Binary64} {threshold : Binary64} {p : Percentile Binary64}

theorem order_of_nonneg (h : 0 ≤ threshold) (x y : Binary64) :
    order threshold x y = x.totalLe y :=
  if_pos h

theorem order_of_not_nonneg (h : ¬ 0 ≤ threshold) (x y : Binary64) :
    order threshold x y = y.totalLe x :=
  if_neg h

theorem isNonnegative_iff : Number.isNonnegative threshold = true ↔ 0 ≤ threshold :=
  decide_eq_true_iff

theorem areFirst_cut (hperm : sorted.Perm samples)
    (hsorted : sorted.Pairwise fun x y => x.totalLe y = true) :
    AreFirst (order threshold) samples (cut sorted threshold) := by
  unfold cut
  by_cases hside : 0 ≤ threshold
  · rw [if_pos (isNonnegative_iff.mpr hside)]
    generalize rank threshold sorted.length = r
    rw [← List.take_append_drop r sorted, List.pairwise_append] at hsorted
    refine ⟨sorted.drop r, ?_, ?_⟩
    · rwa [List.take_append_drop]
    · intro x hx y hy
      rw [order_of_nonneg hside]
      exact hsorted.2.2 x hx y hy
  · rw [if_neg (isNonnegative_iff.not.mpr hside)]
    generalize sorted.length - rank threshold sorted.length = k
    rw [← List.take_append_drop k sorted, List.pairwise_append] at hsorted
    -- From above, what is left out are the first samples of the list.
    refine ⟨sorted.take k, ?_, ?_⟩
    · apply List.perm_append_comm.trans
      rwa [List.take_append_drop]
    · intro x hx y hy
      rw [order_of_not_nonneg hside]
      exact hsorted.2.2 y hy x hx

theorem pairwise_cut (hsorted : sorted.Pairwise fun x y => x.totalLe y = true) :
    (cut sorted threshold).Pairwise fun x y => x.totalLe y = true := by
  unfold cut
  split
  · exact hsorted.take
  · exact hsorted.drop

theorem order_bound (hsorted : sorted.Pairwise fun x y => x.totalLe y = true)
    (h : compute sorted threshold = some p) :
    p.bound ∈ cut sorted threshold ∧
      ∀ y ∈ cut sorted threshold, order threshold y p.bound = true := by
  obtain ⟨bound, hedge, rfl⟩ := Option.map_eq_some_iff.mp h
  have hinside : (cut sorted threshold).Pairwise fun x y => x.totalLe y = true :=
    pairwise_cut hsorted
  by_cases hside : 0 ≤ threshold
  · rw [if_pos (isNonnegative_iff.mpr hside)] at hedge
    obtain ⟨before, hcut⟩ := List.getLast?_eq_some_iff.mp hedge
    rw [hcut, List.pairwise_append] at hinside
    rw [hcut]
    refine ⟨List.mem_append_right before List.mem_cons_self, ?_⟩
    intro y hy
    rw [order_of_nonneg hside]
    rcases List.mem_append.mp hy with hbefore | hself
    · exact hinside.2.2 y hbefore bound List.mem_cons_self
    · rw [List.mem_singleton.mp hself]
      exact Binary64.totalLe_refl bound
  · rw [if_neg (isNonnegative_iff.not.mpr hside)] at hedge
    obtain ⟨after, hcut⟩ := List.head?_eq_some_iff.mp hedge
    rw [hcut, List.pairwise_cons] at hinside
    rw [hcut]
    refine ⟨List.mem_cons_self, ?_⟩
    intro y hy
    rw [order_of_not_nonneg hside]
    rcases List.mem_cons.mp hy with hself | hafter
    · rw [hself]
      exact Binary64.totalLe_refl bound
    · exact hinside.1 y hafter

theorem length_cut_eq_countAt (sorted : List Binary64) (threshold : Binary64) :
    (cut sorted threshold).length = countAt threshold sorted.length := by
  rw [length_cut (rank_le_count threshold sorted.length), rank_eq]

theorem compute_isSome_iff (sorted : List Binary64) (threshold : Binary64) :
    (compute sorted threshold).isSome = true ↔ countAt threshold sorted.length ≠ 0 := by
  rw [← Option.ne_none_iff_isSome, ne_eq, compute_eq_none_iff, ← List.length_eq_zero_iff,
    length_cut_eq_countAt]

theorem cuts_of_compute (hperm : sorted.Perm samples)
    (hsorted : sorted.Pairwise fun x y => x.totalLe y = true)
    (h : compute sorted threshold = some p) : p.threshold = threshold ∧ Cuts p samples := by
  have hlength : (cut sorted threshold).length = p.count := by
    rw [count_of_compute h, length_cut (rank_le_count threshold sorted.length)]
  have hcount : p.count = countAt threshold samples.length := by
    rw [← hlength, length_cut_eq_countAt, hperm.length_eq]
  have hfirst : AreFirst (order threshold) samples (cut sorted threshold) :=
    areFirst_cut hperm hsorted
  obtain ⟨hmem, hlast⟩ := order_bound hsorted h
  have hbound := hfirst.isAt hmem hlast
  have hpos := List.length_pos_of_mem hmem
  have hle : p.count ≤ samples.length := by
    rw [count_of_compute h, ← hperm.length_eq]
    exact rank_le_count threshold sorted.length
  rw [hlength] at hbound hpos
  obtain ⟨bound, -, rfl⟩ := Option.map_eq_some_iff.mp h
  exact ⟨rfl, hcount, hpos, hle, hbound,
    cut sorted threshold, hlength, pairwise_cut hsorted, hfirst, rfl, rfl, rfl⟩

end Percentile

namespace Summary

structure Outlines (s : Summary Binary64) (samples thresholds : List Binary64) : Prop where
  least : s.least ∈ samples ∧ ∀ x ∈ samples, s.least.totalLe x = true
  greatest : s.greatest ∈ samples ∧ ∀ x ∈ samples, x.totalLe s.greatest = true
  -- Thresholds at which no sample counts are left out.
  reported : s.percentiles.map Percentile.threshold =
    thresholds.filter fun t => decide (Percentile.countAt t samples.length ≠ 0)
  cuts : ∀ p ∈ s.percentiles, p.Cuts samples
  between : ∀ p ∈ s.percentiles,
    s.least.totalLe p.bound = true ∧ p.bound.totalLe s.greatest = true

theorem map_threshold_filterMap {sorted samples : List Binary64} (hperm : sorted.Perm samples)
    (hsorted : sorted.Pairwise fun x y => x.totalLe y = true) (thresholds : List Binary64) :
    (thresholds.filterMap (Percentile.compute sorted)).map Percentile.threshold =
      thresholds.filter fun t => decide (Percentile.countAt t samples.length ≠ 0) := by
  induction thresholds with
  | nil => rfl
  | cons threshold rest ih =>
    have hreported := Percentile.compute_isSome_iff sorted threshold
    rw [hperm.length_eq] at hreported
    cases hcompute : Percentile.compute sorted threshold with
    | none =>
      rw [hcompute] at hreported
      have hskipped : ¬ Percentile.countAt threshold samples.length ≠ 0 := by
        rw [← hreported]
        exact Bool.false_ne_true
      rw [List.filterMap_cons_none hcompute, ih, List.filter_cons, decide_eq_false hskipped]
      rfl
    | some p =>
      rw [hcompute] at hreported
      have hkept : Percentile.countAt threshold samples.length ≠ 0 := hreported.mp rfl
      have hthreshold := (Percentile.cuts_of_compute hperm hsorted hcompute).1
      rw [List.filterMap_cons_some hcompute, List.map_cons, ih, hthreshold, List.filter_cons,
        decide_eq_true hkept]
      rfl

theorem outlines_ofSorted {least : Binary64} {others samples : List Binary64}
    (hperm : (least :: others).Perm samples)
    (hsorted : (least :: others).Pairwise fun x y => x.totalLe y = true)
    (sampledCount : Binary64) (thresholds : List Binary64) (interval : Nat) :
    (ofSorted least others sampledCount thresholds interval).Outlines samples thresholds := by
  have hleast : ∀ x ∈ samples, least.totalLe x = true := by
    intro x hx
    exact hsorted.rel_head (hperm.mem_iff.mpr hx)
  have hgreatest : ∀ x ∈ samples,
      x.totalLe ((least :: others).getLast (List.cons_ne_nil least others)) = true := by
    intro x hx
    exact hsorted.rel_getLast (hperm.mem_iff.mpr hx)
  have hcuts : ∀ p ∈ thresholds.filterMap (Percentile.compute (least :: others)),
      p.Cuts samples := by
    intro p hp
    obtain ⟨threshold, -, hcompute⟩ := List.mem_filterMap.mp hp
    exact (Percentile.cuts_of_compute hperm hsorted hcompute).2
  constructor
  · exact ⟨hperm.mem_iff.mp List.mem_cons_self, hleast⟩
  · exact ⟨hperm.mem_iff.mp (List.getLast_mem _), hgreatest⟩
  · exact map_threshold_filterMap hperm hsorted thresholds
  · exact hcuts
  · intro p hp
    have hmem := (hcuts p hp).bound.mem
    exact ⟨hleast p.bound hmem, hgreatest p.bound hmem⟩

-- There is a summary if there is any sample; it is found without an index out of range, and says
-- how the samples lie.
theorem outlines_compute (first : Binary64) (rest : List Binary64) (sampledCount : Binary64)
    (thresholds : List Binary64) (interval : Nat) :
    ∃ s, compute (first :: rest) sampledCount thresholds interval = some s ∧
      byIndex? (first :: rest) sampledCount thresholds interval = some (some s) ∧
      s.Outlines (first :: rest) thresholds := by
  have hperm : ((first :: rest).mergeSort Number.totalLe).Perm (first :: rest) :=
    List.mergeSort_perm (first :: rest) Number.totalLe
  have hsorted : ((first :: rest).mergeSort Number.totalLe).Pairwise fun x y : Binary64 =>
      x.totalLe y = true :=
    Binary64.ordered.pairwise_mergeSort (first :: rest)
  rw [byIndex?_eq, compute]
  generalize (first :: rest).mergeSort Number.totalLe = sorted at hperm hsorted ⊢
  cases sorted with
  | nil => cases List.nil_perm.mp hperm
  | cons least others =>
    exact ⟨_, rfl, rfl, outlines_ofSorted hperm hsorted sampledCount thresholds interval⟩

end Summary

end StatsDaemon
