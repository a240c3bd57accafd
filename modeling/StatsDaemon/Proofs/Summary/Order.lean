import Mathlib
import StatsDaemon.Proofs.Binary64.Packing
import StatsDaemon.Summary

namespace StatsDaemon

-- Numbers that can be sorted, and in one way only.
structure Number.Ordered (α : Type) [Number α] : Prop where
  trans : ∀ x y z : α, totalLe x y = true → totalLe y z = true → totalLe x z = true
  total : ∀ x y : α, (totalLe x y || totalLe y x) = true
  antisymm : ∀ x y : α, totalLe x y = true → totalLe y x = true → x = y

namespace Binary64

theorem rank_inj {x y : Binary64} (h : x.rank = y.rank) : x = y := by
  have hx := x.bits.toNat_lt
  have hy := y.bits.toNat_lt
  apply eq_of_toNat_eq
  unfold rank at h
  by_cases hnegx : x.isNegative = true
  · have hhigh := x.isNegative_iff.mp hnegx
    by_cases hnegy : y.isNegative = true
    · rw [if_pos hnegx, if_pos hnegy] at h
      omega
    · rw [if_pos hnegx, if_neg hnegy] at h
      omega
  · by_cases hnegy : y.isNegative = true
    · have hhigh := y.isNegative_iff.mp hnegy
      rw [if_neg hnegx, if_pos hnegy] at h
      omega
    · rw [if_neg hnegx, if_neg hnegy] at h
      omega

theorem totalLe_iff {x y : Binary64} : x.totalLe y = true ↔ x.rank ≤ y.rank :=
  decide_eq_true_iff

theorem ordered : Number.Ordered Binary64 where
  trans x y z hxy hyz := totalLe_iff.mpr ((totalLe_iff.mp hxy).trans (totalLe_iff.mp hyz))
  total x y := by
    rw [Bool.or_eq_true]
    exact (Nat.le_total x.rank y.rank).imp totalLe_iff.mpr totalLe_iff.mpr
  antisymm x y hxy hyx := rank_inj (Nat.le_antisymm (totalLe_iff.mp hxy) (totalLe_iff.mp hyx))

theorem totalLe_refl (x : Binary64) : x.totalLe x = true :=
  totalLe_iff.mpr (Nat.le_refl x.rank)

instance : Std.Refl fun x y : Binary64 => x.totalLe y = true :=
  ⟨totalLe_refl⟩

end Binary64

namespace Number.Ordered

variable {α : Type} [Number α] (h : Ordered α)

include h

theorem pairwise_mergeSort (samples : List α) :
    (samples.mergeSort totalLe).Pairwise fun x y => totalLe x y = true :=
  List.pairwise_mergeSort h.trans h.total samples

theorem eq_mergeSort {samples sorted : List α} (hperm : sorted.Perm samples)
    (hsorted : sorted.Pairwise fun x y => totalLe x y = true) :
    sorted = samples.mergeSort totalLe := by
  have hall : sorted.Perm (samples.mergeSort totalLe) :=
    hperm.trans (List.mergeSort_perm samples totalLe).symm
  apply hall.eq_of_pairwise _ hsorted (h.pairwise_mergeSort samples)
  intro x y _ _ hxy hyx
  exact h.antisymm x y hxy hyx

theorem mergeSort_eq_of_perm {samples others : List α} (hperm : samples.Perm others) :
    samples.mergeSort totalLe = others.mergeSort totalLe :=
  h.eq_mergeSort ((List.mergeSort_perm samples totalLe).trans hperm) (h.pairwise_mergeSort samples)

end Number.Ordered

namespace Summary

theorem compute_eq_of_perm {samples others : List Binary64} (hperm : samples.Perm others)
    (sampledCount : Binary64) (thresholds : List Binary64) (interval : Nat) :
    (∀ sorted : List Binary64, sorted.Perm samples →
      sorted.Pairwise (fun x y => x.totalLe y = true) →
        sorted = others.mergeSort Binary64.totalLe) ∧
    compute samples sampledCount thresholds interval =
      compute others sampledCount thresholds interval := by
  constructor
  · intro sorted hsorted hpairwise
    exact Binary64.ordered.eq_mergeSort (hsorted.trans hperm) hpairwise
  · unfold compute
    rw [Binary64.ordered.mergeSort_eq_of_perm hperm]

-- Zeros of both signs, two samples that are no numbers, and one that is there twice.
def oddSamples : List Binary64 :=
  [.nan, .infinity, 0, .negZero, Binary64.nan.withSign true, .infinity]

theorem oddSamples_reversed :
    oddSamples.Perm oddSamples.reverse ∧
    (∀ sorted : List Binary64, sorted.Perm oddSamples →
      sorted.Pairwise (fun x y => x.totalLe y = true) →
        sorted = oddSamples.reverse.mergeSort Binary64.totalLe) ∧
    compute oddSamples 6 [50] 1000 = compute oddSamples.reverse 6 [50] 1000 := by
  have hperm : oddSamples.Perm oddSamples.reverse := (List.reverse_perm oddSamples).symm
  exact ⟨hperm, compute_eq_of_perm hperm 6 [50] 1000⟩

end Summary

end StatsDaemon
