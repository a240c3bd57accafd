import Mathlib
import StatsDaemon.Batch
import StatsDaemon.Proofs.Series

namespace StatsDaemon

namespace Batch

variable {α β : Type}

theorem sorted_perm (series : β → Series) (items : List β) : (sorted series items).Perm items :=
  List.mergeSort_perm _ _

theorem sorted_pairwise (series : β → Series) (items : List β) :
    (sorted series items).Pairwise fun a b => (series a).le (series b) = true :=
  List.pairwise_mergeSort (fun a b c => Series.le_trans (series a) (series b) (series c))
    (fun a b => Series.le_total (series a) (series b)) items

theorem sorted_eq_of_perm (series : β → Series) (items others : List β) (hp : items.Perm others)
    (honce : (items.map series).Nodup) : sorted series items = sorted series others := by
  have hperm : (sorted series items).Perm (sorted series others) :=
    (sorted_perm series items).trans (hp.trans (sorted_perm series others).symm)
  refine hperm.eq_of_pairwise ?_ (sorted_pairwise series items) (sorted_pairwise series others)
  intro a b ha hb hab hba
  have ha : a ∈ items := (sorted_perm series items).mem_iff.mp ha
  have hb : b ∈ items := hp.mem_iff.mpr ((sorted_perm series others).mem_iff.mp hb)
  exact List.inj_on_of_nodup_map honce ha hb (Series.le_antisymm _ _ hab hba)

end Batch

namespace Snapshot

variable {α : Type}

-- A report that is divided into parts, event by event and figure by figure.
structure Divided (s : Snapshot α) (parts : List (Snapshot α)) : Prop where
  counters : (parts.flatMap Snapshot.counters).Perm s.counters
  gauges : (parts.flatMap Snapshot.gauges).Perm s.gauges
  sets : (parts.flatMap Snapshot.sets).Perm s.sets
  timers : (parts.flatMap Snapshot.timers).Perm s.timers
  events : parts.flatMap Snapshot.events = s.events
  expired : (parts.map Snapshot.expired).sum = s.expired

end Snapshot

variable {α : Type} [Number α]

theorem Batch.flushTimer_series (thresholds : List α) (interval : Nat) (t : TimerReading α)
    (f : FlushedTimer α) (h : flushTimer? thresholds interval t = some f) :
    f.series = t.series := by
  simp only [flushTimer?, Option.map_eq_some_iff] at h
  obtain ⟨summary, -, rfl⟩ := h
  rfl

theorem Batch.flushTimers_once (thresholds : List α) (interval : Nat) (ts : List (TimerReading α))
    (h : (ts.map TimerReading.series).Nodup) :
    ((ts.filterMap (flushTimer? thresholds interval)).map FlushedTimer.series).Nodup := by
  refine nodup_readings TimerReading.series FlushedTimer.series id _ ts (fun t _ f hf => ?_) h
  exact (flushTimer_series thresholds interval t f hf).symm

theorem Snapshot.Divided.batch {s : Snapshot α} {parts : List (Snapshot α)} (h : s.Divided parts)
    (honce : s.Once) (thresholds : List α) (interval timestamp : Nat) :
    Batch.ofSnapshots parts thresholds interval timestamp =
      Batch.ofSnapshots [s] thresholds interval timestamp := by
  have hcounters : (parts.flatMap fun p => p.counters.map (Batch.flushCounter interval)).Perm
      (s.counters.map (Batch.flushCounter interval)) := by
    rw [← List.map_flatMap]
    exact h.counters.map _
  have htimers :
      (parts.flatMap fun p => p.timers.filterMap (Batch.flushTimer? thresholds interval)).Perm
      (s.timers.filterMap (Batch.flushTimer? thresholds interval)) := by
    rw [← List.filterMap_flatMap]
    exact h.timers.filterMap _
  have hflushed : (s.counters.map (Batch.flushCounter interval)).map FlushedCounter.series =
      s.counters.map CounterReading.series := by
    rw [List.map_map]
    rfl
  simp only [Batch.ofSnapshots, List.flatMap_singleton, Batch.mk.injEq, true_and]
  refine ⟨?_, ?_, ?_, ?_, h.events⟩
  · refine (Batch.sorted_eq_of_perm _ _ _ hcounters.symm ?_).symm
    rw [hflushed]
    exact honce.counters
  · exact (Batch.sorted_eq_of_perm _ _ _ h.gauges.symm honce.gauges).symm
  · exact (Batch.sorted_eq_of_perm _ _ _ h.sets.symm honce.sets).symm
  · exact (Batch.sorted_eq_of_perm _ _ _ htimers.symm
      (Batch.flushTimers_once thresholds interval _ honce.timers)).symm

end StatsDaemon
