import StatsDaemon.Key
import Mathlib.Data.List.Flatten
import Mathlib.Data.List.Perm.Basic

namespace StatsDaemon.Key

variable {β : Type}

theorem flatMap_filter_perm (number : β → Nat) (n : Nat) (items : List β) :
    ((List.range n).flatMap fun i => items.filter fun x => number x == i).Perm
      (items.filter fun x => number x < n) := by
  induction n with
  | zero => simp
  | succ n ih =>
    have hsplit := List.filter_append_perm (fun x => decide (number x < n))
      (items.filter fun x => number x < n + 1)
    rw [List.filter_filter, List.filter_filter] at hsplit
    have hlow : (items.filter fun x => decide (number x < n) && decide (number x < n + 1)) =
        items.filter fun x => number x < n := by
      refine List.filter_congr fun x _ => ?_
      rw [Bool.eq_iff_iff]
      simp only [Bool.and_eq_true, decide_eq_true_eq]
      omega
    have hlast : (items.filter fun x => !decide (number x < n) && decide (number x < n + 1)) =
        items.filter fun x => number x == n := by
      refine List.filter_congr fun x _ => ?_
      rw [Bool.eq_iff_iff]
      simp only [Bool.and_eq_true, Bool.not_eq_true', decide_eq_false_iff_not, decide_eq_true_eq,
        beq_iff_eq]
      omega
    rw [hlow, hlast] at hsplit
    rw [List.range_succ, List.flatMap_append, List.flatMap_singleton]
    exact (ih.append_right _).trans hsplit

theorem shares_perm (key : β → Key) (n : Nat) (items : List β) (hn : 0 < n) :
    ((List.range n).flatMap fun i => items.filter fun x => (key x).shard n == i).Perm items := by
  have hall : (items.filter fun x => (key x).shard n < n) = items := by
    refine List.filter_eq_self.mpr fun x _ => ?_
    have hlt := (key x).shard_lt n
    rw [decide_eq_true_eq]
    omega
  have hperm := flatMap_filter_perm (fun x => (key x).shard n) n items
  rwa [hall] at hperm

end StatsDaemon.Key
