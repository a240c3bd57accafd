import StatsDaemon.Proofs.Batch.Increasing
import StatsDaemon.Proofs.Shard.Scan
import StatsDaemon.Proofs.Snapshot.Merge

namespace StatsDaemon

variable {α : Type} [Number α]

namespace Shard

omit [Number α] in
structure Owns (s : Shard α) (scope : Key → Prop) : Prop where
  sound : Sound s.entries
  within : ∀ e ∈ s.entries, scope e.key

variable {s : Shard α} {scope : Key → Prop}

theorem Owns.merge (h : s.Owns scope) (m : KeyedMetric α) (now : Nat) (hm : m.Coherent)
    (hscope : scope m.key) : ∃ t, s.merge m now = .ok t ∧ t.Owns scope := by
  obtain ⟨entries, hentries⟩ := mergeEntries_ok m now s.entries hm h.sound.kinds
  refine ⟨{ s with entries }, by rw [Shard.merge, hentries]; rfl,
    mergeEntries_sound m now _ entries hm h.sound hentries, fun x hx => ?_⟩
  rcases mergeEntries_cases m now _ entries hentries with
    ⟨before, e, after, a, hs, -, he, -, rfl⟩ | ⟨-, rfl⟩
  · simp only [List.mem_append, List.mem_cons] at hx
    rcases hx with hx | rfl | hx
    · exact h.within x (by simp [hs, hx])
    · exact he ▸ hscope
    · exact h.within x (by simp [hs, hx])
  · rcases List.mem_append.mp hx with hx | hx
    · exact h.within x hx
    · exact List.mem_singleton.mp hx ▸ hscope

omit [Number α] in
theorem Owns.addEvent (h : s.Owns scope) (e : Event) : (s.addEvent e).1.Owns scope := by
  unfold Shard.addEvent
  split
  · exact h
  · exact ⟨h.sound, h.within⟩

omit [Number α] in
theorem Owns.expireChunk (h : s.Owns scope) (now chunk : Nat) :
    (s.expireChunk now chunk).1.Owns scope := by
  obtain ⟨gone, hs, -⟩ := expireChunk_scanned s now chunk
  exact ⟨hs.sound h.sound, fun e he => h.within e (hs.entries.subset (List.mem_append_right _ he))⟩

theorem Owns.snapshot (h : s.Owns scope) (now : Nat) : (s.snapshot now).1.Owns scope := by
  refine ⟨snapshot_sound s now h.sound, fun x hx => ?_⟩
  obtain ⟨e, he, rfl⟩ := mem_snapshot s now x hx
  exact (reset_key e).symm ▸ h.within e he

omit [Number α] in
theorem Owns.readings (h : s.Owns scope) (now : Nat) {β : Type} (kind : Kind) (series : β → Series)
    (read : Entry α → Option β)
    (hread : ∀ e r, e.aggregate.kind = e.key.kind → read e = some r → e.key = (series r).key kind)
    (r : β) (hr : r ∈ (s.entries.filter fun e => !s.isIdle now e).filterMap read) :
    scope ((series r).key kind) := by
  obtain ⟨e, he, hr⟩ := List.mem_filterMap.mp hr
  have hmem := List.mem_of_mem_filter he
  exact hread e r (h.sound.kinds e hmem) hr ▸ h.within e hmem

theorem Owns.report (h : s.Owns scope) (now : Nat) : (s.snapshot now).2.Owned scope where
  once := snapshot_once s now h.sound
  within :=
    { counters := h.readings now .counter CounterReading.series _ counterReading_key
      gauges := h.readings now .gauge GaugeReading.series _ gaugeReading_key
      sets := h.readings now .set SetReading.series _ setReading_key
      timers := h.readings now .timer TimerReading.series _ timerReading_key }

end Shard

omit [Number α] in
theorem series_of_folded {β : Type} (series : β → Series) (fold : β → β → β)
    (items more folded : List β)
    (h : ∀ x, folded.filter (fun r => series r = x) =
      foldAll fold (items.filter (fun r => series r = x) ++ more.filter fun r => series r = x))
    (r : β) (hr : r ∈ folded) : ∃ y, (y ∈ items ∨ y ∈ more) ∧ series y = series r := by
  have hmem : r ∈ folded.filter fun y => series y = series r := by simp [hr]
  rw [h, ← List.filter_append] at hmem
  cases hfilter : (items ++ more).filter fun y => series y = series r with
  | nil =>
    rw [hfilter] at hmem
    cases hmem
  | cons y rest =>
    have hy : y ∈ (items ++ more).filter fun y => series y = series r := by simp [hfilter]
    rw [List.mem_filter, List.mem_append, decide_eq_true_eq] at hy
    exact ⟨y, hy⟩

theorem Snapshot.Owned.merge {scope : Key → Prop} {s later : Snapshot α} (h : s.Owned scope)
    (hlater : later.Owned scope) : (s.merge later).Owned scope where
  once := h.once.merge later
  within :=
    { counters := fun r hr => by
        obtain ⟨y, hy, heq⟩ := series_of_folded CounterReading.series _ _ _ _
          (h.once.merge_counters later) r hr
        exact heq ▸ hy.elim (h.within.counters y) (hlater.within.counters y)
      gauges := fun r hr => by
        obtain ⟨y, hy, heq⟩ := series_of_folded GaugeReading.series _ _ _ _
          (h.once.merge_gauges later) r hr
        exact heq ▸ hy.elim (h.within.gauges y) (hlater.within.gauges y)
      sets := fun r hr => by
        obtain ⟨y, hy, heq⟩ := series_of_folded SetReading.series _ _ _ _
          (h.once.merge_sets later) r hr
        exact heq ▸ hy.elim (h.within.sets y) (hlater.within.sets y)
      timers := fun r hr => by
        obtain ⟨y, hy, heq⟩ := series_of_folded TimerReading.series _ _ _ _
          (h.once.merge_timers later) r hr
        exact heq ▸ hy.elim (h.within.timers y) (hlater.within.timers y) }

end StatsDaemon
