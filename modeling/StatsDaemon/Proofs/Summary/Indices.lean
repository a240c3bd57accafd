import Mathlib
import StatsDaemon.Summary

namespace StatsDaemon

def back? (index places : Nat) : Option Nat :=
  if places ≤ index then some (index - places) else none

theorem back?_of_le {index places : Nat} (h : places ≤ index) :
    back? index places = some (index - places) :=
  if_pos h

def slice? {β : Type} (items : List β) (start stop : Nat) : Option (List β) :=
  if start ≤ stop ∧ stop ≤ items.length then some ((items.take stop).drop start) else none

theorem slice?_take {β : Type} {items : List β} {stop : Nat} (h : stop ≤ items.length) :
    slice? items 0 stop = some (items.take stop) :=
  if_pos ⟨Nat.zero_le stop, h⟩

theorem slice?_drop {β : Type} {items : List β} {start : Nat} (h : start ≤ items.length) :
    slice? items start items.length = some (items.drop start) := by
  rw [slice?, if_pos ⟨h, Nat.le_refl _⟩, List.take_length]

variable {α : Type} [Number α]

namespace Percentile

theorem rank_le_count (threshold : α) (count : Nat) : rank threshold count ≤ count := by
  unfold rank
  split
  · omega
  · exact Nat.min_le_right _ _

def cutByIndex? (sorted : List α) (threshold : α) : Option (α × List α) :=
  let count := sorted.length
  let r := rank threshold count
  if Number.isNonnegative threshold then do
    let last ← back? r 1
    let bound ← sorted[last]?
    let inside ← slice? sorted 0 r
    some (bound, inside)
  else do
    let first ← back? count r
    let bound ← sorted[first]?
    let inside ← slice? sorted first count
    some (bound, inside)

def byIndex? (sorted : List α) (threshold : α) : Option (Option (Percentile α)) :=
  let r := rank threshold sorted.length
  if r = 0 then some none
  else do
    let (bound, inside) ← cutByIndex? sorted threshold
    let sum := Number.sum inside
    some (some
      { threshold, bound
        count := r
        mean := sum / Number.ofNat r
        sum
        sumSquares := Number.sum (inside.map fun x => x * x) })

variable {sorted : List α} {threshold : α}

theorem cutByIndex?_eq (h : rank threshold sorted.length ≠ 0) : ∃ bound,
    cutByIndex? sorted threshold = some (bound, cut sorted threshold) ∧
      (if Number.isNonnegative threshold then (cut sorted threshold).getLast?
        else (cut sorted threshold).head?) = some bound := by
  have hle := rank_le_count threshold sorted.length
  by_cases hside : Number.isNonnegative threshold = true
  · have hlast : rank threshold sorted.length - 1 < sorted.length := by omega
    refine ⟨sorted[rank threshold sorted.length - 1], ?_, ?_⟩
    · simp only [cutByIndex?, cut, if_pos hside, back?_of_le (Nat.one_le_iff_ne_zero.mpr h),
        slice?_take hle, Option.bind_eq_bind, Option.bind_some, List.getElem?_eq_getElem hlast]
    · simp only [cut, if_pos hside]
      rw [List.getLast?_take, if_neg h, List.getElem?_eq_getElem hlast]
      rfl
  · have hfirst : sorted.length - rank threshold sorted.length < sorted.length := by omega
    refine ⟨sorted[sorted.length - rank threshold sorted.length], ?_, ?_⟩
    · simp only [cutByIndex?, cut, if_neg hside, back?_of_le hle, Option.bind_eq_bind,
        Option.bind_some, slice?_drop (Nat.sub_le sorted.length _), List.getElem?_eq_getElem hfirst]
    · simp only [cut, if_neg hside]
      rw [List.head?_drop, List.getElem?_eq_getElem hfirst]

theorem byIndex?_eq (sorted : List α) (threshold : α) :
    byIndex? sorted threshold = some (compute sorted threshold) := by
  by_cases h : rank threshold sorted.length = 0
  · have hcut : cut sorted threshold = [] := by
      simp only [cut, h, List.take_zero, Nat.sub_zero, List.drop_length, ite_self]
    simp only [byIndex?, if_pos h, compute, hcut]
    simp
  · obtain ⟨bound, hcut, hedge⟩ := cutByIndex?_eq h
    simp only [byIndex?, if_neg h, hcut, compute, hedge]
    rfl

end Percentile

namespace Summary

def medianByIndex? (sorted : List α) : Option α :=
  let half := sorted.length / 2
  if sorted.length % 2 = 0 then do
    let below ← back? half 1
    let lower ← sorted[below]?
    let upper ← sorted[half]?
    some ((lower + upper) / Number.ofNat 2)
  else sorted[half]?

def byIndex? (samples : List α) (sampledCount : α) (thresholds : List α) (interval : Nat) :
    Option (Option (Summary α)) :=
  if samples.isEmpty then some none
  else do
    let sorted := samples.mergeSort Number.totalLe
    let count := sorted.length
    let sum := Number.sum sorted
    let mean := sum / Number.ofNat count
    let median ← medianByIndex? sorted
    let variance :=
      Number.sum (sorted.map fun x => (x - mean) * (x - mean)) / Number.ofNat count
    let percentiles ← thresholds.mapM (Percentile.byIndex? sorted)
    let least ← sorted[0]?
    let last ← back? count 1
    let greatest ← sorted[last]?
    some (some
      { count, sampledCount
        perSecond := Number.perSecond sampledCount interval
        sum
        sumSquares := Number.sum (sorted.map fun x => x * x)
        least, greatest, mean, median
        deviation := Number.sqrt variance
        percentiles := percentiles.filterMap id })

theorem medianByIndex?_eq {sorted : List α} (h : sorted ≠ []) (default : α) :
    medianByIndex? sorted = some (medianOf sorted default) := by
  have hlength := List.length_pos_iff.mpr h
  have hhalf : sorted.length / 2 < sorted.length := by omega
  unfold medianByIndex? medianOf
  by_cases heven : sorted.length % 2 = 0
  · have hbelow : sorted.length / 2 - 1 < sorted.length := by omega
    have hone : 1 ≤ sorted.length / 2 := by omega
    simp only [if_pos heven, back?_of_le hone, List.getD_eq_getElem?_getD, Option.bind_eq_bind,
      Option.bind_some, List.getElem?_eq_getElem hhalf, List.getElem?_eq_getElem hbelow]
    rfl
  · simp only [if_neg heven, List.getD_eq_getElem?_getD, List.getElem?_eq_getElem hhalf]
    rfl

theorem mapM_byIndex? (sorted thresholds : List α) :
    thresholds.mapM (Percentile.byIndex? sorted) =
      some (thresholds.map (Percentile.compute sorted)) := by
  rw [funext (Percentile.byIndex?_eq sorted)]
  exact List.mapM_pure

-- No index is ever out of range.
theorem byIndex?_eq (samples : List α) (sampledCount : α) (thresholds : List α) (interval : Nat) :
    byIndex? samples sampledCount thresholds interval =
      some (compute samples sampledCount thresholds interval) := by
  unfold byIndex? compute
  have hlength : (samples.mergeSort Number.totalLe).length = samples.length :=
    List.length_mergeSort samples
  cases hsorted : samples.mergeSort Number.totalLe with
  | nil =>
    rw [hsorted, List.length_nil] at hlength
    rw [if_pos (List.isEmpty_iff.mpr (List.length_eq_zero_iff.mp hlength.symm))]
  | cons first rest =>
    rw [hsorted, List.length_cons] at hlength
    have hsome : ¬ samples.isEmpty = true := by
      intro hempty
      rw [List.isEmpty_iff.mp hempty] at hlength
      cases hlength
    have hone : 1 ≤ (first :: rest).length := Nat.le_add_left 1 rest.length
    have hgreatest : (first :: rest)[(first :: rest).length - 1]? =
        some ((first :: rest).getLast (List.cons_ne_nil first rest)) := by
      rw [← List.getLast?_eq_getElem?, List.getLast?_eq_some_getLast]
    simp only [if_neg hsome, medianByIndex?_eq (List.cons_ne_nil first rest) first, mapM_byIndex?,
      back?_of_le hone, hgreatest, List.getElem?_cons_zero, Option.bind_eq_bind, Option.bind_some,
      List.filterMap_map, Function.id_comp]
    rfl

end Summary

end StatsDaemon
