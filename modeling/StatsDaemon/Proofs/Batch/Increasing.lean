import StatsDaemon.Proofs.Batch.Sorted

namespace StatsDaemon

namespace Series

def Lt (s t : Series) : Prop :=
  s.name < t.name ∨ s.name = t.name ∧ s.tags.lt t.tags = true

theorem lt_of_le_of_ne {s t : Series} (hle : s.le t = true) (hne : s ≠ t) : s.Lt t := by
  rcases (le_iff s t).mp hle with hname | ⟨hname, htags⟩
  · exact .inl hname
  · refine .inr ⟨hname, decide_eq_true ?_⟩
    have hitems : s.tags.items ≠ t.tags.items := by
      intro heq
      obtain ⟨name, ⟨items, increasing⟩⟩ := s
      obtain ⟨name', ⟨items', increasing'⟩⟩ := t
      dsimp only at hname heq
      subst hname
      subst heq
      exact hne rfl
    order

theorem Lt.ne {s t : Series} (h : s.Lt t) : s ≠ t := by
  rintro rfl
  rcases h with hname | ⟨-, htags⟩
  · exact lt_irrefl _ hname
  · exact lt_irrefl _ (of_decide_eq_true htags)

end Series

namespace Batch

variable {α : Type}

structure Increasing (b : Batch α) : Prop where
  counters : (b.counters.map FlushedCounter.series).Pairwise Series.Lt
  gauges : (b.gauges.map GaugeReading.series).Pairwise Series.Lt
  sets : (b.sets.map SetReading.series).Pairwise Series.Lt
  timers : (b.timers.map FlushedTimer.series).Pairwise Series.Lt

structure Once (b : Batch α) : Prop where
  counters : (b.counters.map FlushedCounter.series).Nodup
  gauges : (b.gauges.map GaugeReading.series).Nodup
  sets : (b.sets.map SetReading.series).Nodup
  timers : (b.timers.map FlushedTimer.series).Nodup

theorem Increasing.once {b : Batch α} (h : b.Increasing) : b.Once where
  counters := h.counters.imp Series.Lt.ne
  gauges := h.gauges.imp Series.Lt.ne
  sets := h.sets.imp Series.Lt.ne
  timers := h.timers.imp Series.Lt.ne

theorem sorted_increasing {β : Type} (series : β → Series) (items : List β)
    (h : (items.map series).Nodup) : ((sorted series items).map series).Pairwise Series.Lt := by
  have hnodup : ((sorted series items).map series).Nodup :=
    ((sorted_perm series items).map series).nodup_iff.mpr h
  have hle : ((sorted series items).map series).Pairwise fun s t => s.le t = true :=
    List.pairwise_map.mpr (sorted_pairwise series items)
  exact hle.imp₂ (fun _ _ => Series.lt_of_le_of_ne) hnodup

end Batch

namespace Snapshot

variable {α : Type}

structure Apart (s t : Snapshot α) : Prop where
  counters : ∀ r ∈ s.counters, ∀ q ∈ t.counters, r.series ≠ q.series
  gauges : ∀ r ∈ s.gauges, ∀ q ∈ t.gauges, r.series ≠ q.series
  sets : ∀ r ∈ s.sets, ∀ q ∈ t.sets, r.series ≠ q.series
  timers : ∀ r ∈ s.timers, ∀ q ∈ t.timers, r.series ≠ q.series

structure Within (scope : Key → Prop) (s : Snapshot α) : Prop where
  counters : ∀ r ∈ s.counters, scope (r.series.key .counter)
  gauges : ∀ r ∈ s.gauges, scope (r.series.key .gauge)
  sets : ∀ r ∈ s.sets, scope (r.series.key .set)
  timers : ∀ r ∈ s.timers, scope (r.series.key .timer)

-- An owner of identities lists its own, each of them once.
structure Owned (scope : Key → Prop) (s : Snapshot α) : Prop where
  once : s.Once
  within : s.Within scope

theorem Within.apart {scope other : Key → Prop} {s t : Snapshot α} (hs : s.Within scope)
    (ht : t.Within other) (hscopes : ∀ k, scope k → ¬ other k) : s.Apart t where
  counters r hr q hq heq := hscopes _ (hs.counters r hr) (heq ▸ ht.counters q hq)
  gauges r hr q hq heq := hscopes _ (hs.gauges r hr) (heq ▸ ht.gauges q hq)
  sets r hr q hq heq := hscopes _ (hs.sets r hr) (heq ▸ ht.sets q hq)
  timers r hr q hq heq := hscopes _ (hs.timers r hr) (heq ▸ ht.timers q hq)

end Snapshot

namespace Batch

theorem nodup_flatMap_readings {σ β : Type} (list : σ → List β) (series : β → Series)
    (parts : List σ) (honce : ∀ p ∈ parts, ((list p).map series).Nodup)
    (hapart : parts.Pairwise fun p q => ∀ r ∈ list p, ∀ t ∈ list q, series r ≠ series t) :
    ((parts.flatMap list).map series).Nodup := by
  rw [List.map_flatMap, List.nodup_flatMap]
  refine ⟨honce, hapart.imp fun {p q} h x hxp hxq => ?_⟩
  obtain ⟨r, hr, rfl⟩ := List.mem_map.mp hxp
  obtain ⟨t, ht, heq⟩ := List.mem_map.mp hxq
  exact h r hr t ht heq.symm

theorem ofSnapshots_increasing {α : Type} [Number α] (snapshots : List (Snapshot α))
    (thresholds : List α) (interval timestamp : Nat) (honce : ∀ s ∈ snapshots, s.Once)
    (hapart : snapshots.Pairwise Snapshot.Apart) :
    (ofSnapshots snapshots thresholds interval timestamp).Increasing where
  counters := by
    refine sorted_increasing _ _ (nodup_flatMap_readings _ _ _ (fun s hs => ?_) ?_)
    · rw [List.map_map]
      exact (honce s hs).counters
    · refine hapart.imp fun {s t} h r hr q hq => ?_
      obtain ⟨c, hc, rfl⟩ := List.mem_map.mp hr
      obtain ⟨d, hd, rfl⟩ := List.mem_map.mp hq
      exact h.counters c hc d hd
  gauges := sorted_increasing _ _ (nodup_flatMap_readings _ _ _ (fun s hs => (honce s hs).gauges)
    (hapart.imp fun {_ _} h => h.gauges))
  sets := sorted_increasing _ _ (nodup_flatMap_readings _ _ _ (fun s hs => (honce s hs).sets)
    (hapart.imp fun {_ _} h => h.sets))
  timers := by
    refine sorted_increasing _ _ (nodup_flatMap_readings _ _ _ (fun s hs => ?_) ?_)
    · exact flushTimers_once thresholds interval _ (honce s hs).timers
    · refine hapart.imp fun {s t} h r hr q hq => ?_
      obtain ⟨c, hc, hcr⟩ := List.mem_filterMap.mp hr
      obtain ⟨d, hd, hdq⟩ := List.mem_filterMap.mp hq
      rw [flushTimer_series thresholds interval c r hcr,
        flushTimer_series thresholds interval d q hdq]
      exact h.timers c hc d hd

end Batch

end StatsDaemon
