import StatsDaemon.Proofs.Shard.InPlace

namespace StatsDaemon

variable {α : Type}

structure Snapshot.OwnKinds (p : Snapshot α) (entries : List (Entry α)) : Prop where
  counters : ∀ r ∈ p.counters, ∃ e ∈ entries, e.key = r.series.key .counter
  gauges : ∀ r ∈ p.gauges, ∃ e ∈ entries, e.key = r.series.key .gauge
  sets : ∀ r ∈ p.sets, ∃ e ∈ entries, e.key = r.series.key .set
  timers : ∀ r ∈ p.timers, ∃ e ∈ entries, e.key = r.series.key .timer

namespace Shard

variable [Number α]

structure Decides (s : Shard α) (m : KeyedMetric α) (now : Nat) : Prop where
  mismatched : ∀ e ∈ s.entries, e.key = m.key → e.aggregate.kind ≠ m.value.kind →
    s.Refuses m now ⟨e.aggregate.kind, m.value.kind⟩
  matched : (∀ e ∈ s.entries, e.key = m.key → e.aggregate.kind = m.value.kind) →
    (s.mergeInPlace m now).2 = none
  vacant : (∀ e ∈ s.entries, e.key ≠ m.key) → s.mergeInPlace m now =
    ({ s with entries := s.entries ++ [⟨m.key, .start m.value m.sampleRate, now⟩] }, none)

-- The entry of the identity is the only one that a merge looks into.
theorem mergeEntries_mismatch {m : KeyedMetric α} (now : Nat) {entries : List (Entry α)}
    {e : Entry α} (hdistinct : (entries.map Entry.key).Nodup) (he : e ∈ entries)
    (hkey : e.key = m.key) (hkind : e.aggregate.kind ≠ m.value.kind) :
    mergeEntries m now entries = .error ⟨e.aggregate.kind, m.value.kind⟩ := by
  induction entries with
  | nil => exact absurd he List.not_mem_nil
  | cons first rest ih =>
    rw [List.map_cons, List.nodup_cons] at hdistinct
    rw [mergeEntries_cons]
    rcases List.mem_cons.mp he with rfl | he
    · rw [if_pos hkey, Aggregate.insert_of_kind_ne _ _ _ hkind]
      rfl
    · have hfirst : first.key ≠ m.key := fun h =>
        hdistinct.1 (h.trans hkey.symm ▸ List.mem_map_of_mem he)
      rw [if_neg hfirst, ih hdistinct.2 he]
      rfl

theorem mergeEntries_agreeing {m : KeyedMetric α} (now : Nat) {entries : List (Entry α)}
    (h : ∀ e ∈ entries, e.key = m.key → e.aggregate.kind = m.value.kind) :
    ∃ merged, mergeEntries m now entries = .ok merged := by
  cases hmerge : mergeEntries m now entries with
  | ok merged => exact ⟨merged, rfl⟩
  | error failure =>
    obtain ⟨e, he, hkey, hkind⟩ := mergeEntries_error m now entries failure hmerge
    exact absurd (h e he hkey) hkind

theorem decides_of_distinct {s : Shard α} (h : s.keys.Nodup) (m : KeyedMetric α) (now : Nat) :
    s.Decides m now := by
  refine ⟨fun e he hkey hkind => refuses_of_merge ?_, fun hagree => ?_, fun hvacant => ?_⟩
  · rw [merge, mergeEntries_mismatch now h he hkey hkind]
    rfl
  · obtain ⟨merged, hmerged⟩ := mergeEntries_agreeing now hagree
    rw [mergeInPlace_of_ok hmerged]
  · obtain ⟨merged, hmerged⟩ := mergeEntries_agreeing now fun e he hkey => absurd hkey (hvacant e he)
    rcases mergeEntries_cases m now s.entries merged hmerged with
      ⟨before, e, after, a, hs, -, hkey, -, -⟩ | ⟨-, rfl⟩
    · exact absurd hkey (hvacant e (by simp [hs]))
    · exact mergeInPlace_of_ok hmerged

theorem ownKinds_snapshot {s : Shard α} (h : ∀ e ∈ s.entries, e.aggregate.kind = e.key.kind)
    (now : Nat) : (s.snapshot now).2.OwnKinds s.entries := by
  have hlisted {β : Type} (read : Entry α → Option β) (key : β → Key)
      (hread : ∀ e r, e.aggregate.kind = e.key.kind → read e = some r → e.key = key r) :
      ∀ r ∈ (s.entries.filter fun e => !s.isIdle now e).filterMap read,
        ∃ e ∈ s.entries, e.key = key r := by
    intro r hr
    obtain ⟨e, he, hr⟩ := List.mem_filterMap.mp hr
    have he := List.mem_of_mem_filter he
    exact ⟨e, he, hread e r (h e he) hr⟩
  exact ⟨hlisted _ _ counterReading_key, hlisted _ _ gaugeReading_key, hlisted _ _ setReading_key,
    hlisted _ _ timerReading_key⟩

-- A metric is refused where it meets an aggregate of another kind than its value. Every entry is of
-- the kind that it began with, so as long as none began with a metric under the identity of another
-- kind, every such metric is refused that meets an entry, and reports keep the kinds apart.
theorem known_forgeries_refused (c : Config.Aggregation) (run : List (Nat × Action α)) :
    let start : Shard α := ofSettings c
    let s := start.actAll run
    (∀ m now, s.Decides m now) ∧
    (∀ x ∈ s.entries, ∃ m, start.Founds run m ∧ m.key = x.key ∧
      x.aggregate.kind = m.value.kind) ∧
    ((∀ m, start.Founds run m → m.Coherent) →
      (∀ m now, ¬ m.Coherent → (∃ e ∈ s.entries, e.key = m.key) →
        s.Refuses m now ⟨m.key.kind, m.value.kind⟩) ∧
      (∀ x ∈ s.entries, x.aggregate.kind = x.key.kind) ∧
      ∀ now, (s.snapshot now).2.OwnKinds s.entries) := by
  intro start s
  have hstart : start.Built c := ⟨rfl, List.nodup_nil⟩
  have hdecides := decides_of_distinct (hstart.actAll run).distinct
  refine ⟨hdecides, fun x => founded_of_mem rfl run, fun hfounded => ?_⟩
  have hkinds := kinds_of_founded (s := start) rfl run hfounded
  refine ⟨fun m now hforged ⟨e, he, hkey⟩ => ?_, hkinds, ownKinds_snapshot hkinds⟩
  have hkind : e.aggregate.kind = m.key.kind := hkey ▸ hkinds e he
  rw [← hkind]
  exact (hdecides m now).mismatched e he hkey fun h => hforged (hkind.symm.trans h)

theorem later_forgeries_refused :
    let gauge : Metric Binary64 := ⟨"x", .gauge 1, 1, .empty, none⟩
    let forged : KeyedMetric Binary64 := ⟨gauge.key, .counter 7, 1⟩
    let run : List (Nat × Action Binary64) :=
      [(0, .merge gauge.keyed), (1, .merge forged), (2, .snapshot)]
    let start : Shard Binary64 := ofSettings { workers := 1 }
    let s := start.actAll run
    ((∀ m, start.Founds run m → m.Coherent) ∧ ¬ forged.Coherent ∧
      ∃ e ∈ s.entries, e.key = forged.key) ∧
      s.Refuses forged 3 ⟨.gauge, .counter⟩ ∧ (s.snapshot 3).2.OwnKinds s.entries := by
  intro gauge forged run start s
  have hforged : ¬ forged.Coherent := fun h => nomatch (show Kind.gauge = Kind.counter from h)
  have hfounded : ∀ m, start.Founds run m → m.Coherent := by
    rintro m ⟨before, now, after, heq, hvacant, -⟩
    match before, heq with
    | [], heq =>
      obtain ⟨-, hm⟩ := Prod.mk.inj (List.cons.inj heq).1
      exact Action.merge.inj hm ▸ gauge.keyed_coherent
    | [_], heq =>
      -- The forged one is merged second, where the gauge has its entry.
      obtain ⟨hfirst, hrest⟩ := List.cons.inj heq
      obtain ⟨-, hm⟩ := Prod.mk.inj (List.cons.inj hrest).1
      subst hfirst
      obtain rfl := Action.merge.inj hm
      exact absurd rfl (hvacant ⟨gauge.key, .gauge 1, 0⟩ (by decide +kernel))
    | [_, _], heq =>
      obtain ⟨-, hm⟩ := Prod.mk.inj (List.cons.inj (List.cons.inj (List.cons.inj heq).2).2).1
      exact nomatch hm
    | _ :: _ :: _ :: before, heq =>
      exact absurd (List.cons.inj (List.cons.inj (List.cons.inj heq).2).2).2 (by simp)
  have hentry : ∃ e ∈ s.entries, e.key = forged.key :=
    ⟨⟨gauge.key, .gauge 1, 0⟩, by decide +kernel, rfl⟩
  obtain ⟨hrefused, -, hkinds⟩ := (known_forgeries_refused { workers := 1 } run).2.2 hfounded
  exact ⟨⟨hfounded, hforged, hentry⟩, hrefused forged 3 hforged hentry, hkinds 3⟩

-- A counter under the identity of a gauge begins an entry. The report lists it among the counters,
-- and a gauge of this identity is refused from then on.
theorem first_forgery_accepted :
    let gauge : Metric Binary64 := ⟨"x", .gauge 1, 1, .empty, none⟩
    let forged : KeyedMetric Binary64 := ⟨gauge.key, .counter 7, 1⟩
    let start : Shard Binary64 := ofSettings { workers := 1 }
    let s := (start.mergeInPlace forged 0).1
    ¬ forged.Coherent ∧ (start.mergeInPlace forged 0).2 = none ∧
      (s.entries.map fun e => (e.key.kind, e.aggregate.kind)) = [(.gauge, .counter)] ∧
      (s.snapshot 1).2.counters = [⟨⟨"x", .empty⟩, 7, 7⟩] ∧ (s.snapshot 1).2.gauges = [] ∧
      (s.mergeInPlace gauge.keyed 1).2 = some ⟨.counter, .gauge⟩ := by
  intro gauge forged start s
  have hforged : ¬ forged.Coherent := fun h => nomatch (show Kind.gauge = Kind.counter from h)
  exact ⟨hforged, by decide +kernel⟩

end Shard

end StatsDaemon
