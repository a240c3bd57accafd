import StatsDaemon.Proofs.Series
import StatsDaemon.Shard

namespace StatsDaemon

namespace KeyedMetric

variable {α : Type}

def Coherent (m : KeyedMetric α) : Prop :=
  m.key.kind = m.value.kind

end KeyedMetric

theorem Metric.keyed_coherent {α : Type} (m : Metric α) : m.keyed.Coherent := rfl

theorem Aggregate.insert_of_kind {α : Type} [Number α] (a : Aggregate α) (value : Value α)
    (rate : α) (h : a.kind = value.kind) : ∃ b, a.insert value rate = .ok b := by
  cases a <;> cases value <;> simp [Aggregate.kind, Value.kind] at h <;> exact ⟨_, rfl⟩

namespace Shard

variable {α : Type}

-- What every shard satisfies that only gets metrics under their own identities.
structure Sound (entries : List (Entry α)) : Prop where
  distinct : (entries.map Entry.key).Nodup
  kinds : ∀ e ∈ entries, e.aggregate.kind = e.key.kind

theorem sound_nil : Sound ([] : List (Entry α)) :=
  ⟨List.nodup_nil, by simp⟩

theorem Sound.sublist {entries rest : List (Entry α)} (h : Sound entries)
    (hsub : rest.Sublist entries) : Sound rest :=
  ⟨h.distinct.sublist (hsub.map _), fun e he => h.kinds e (hsub.subset he)⟩

theorem Sound.perm {entries rest : List (Entry α)} (h : Sound entries) (hp : rest.Perm entries) :
    Sound rest :=
  ⟨(hp.map _).nodup_iff.mpr h.distinct, fun e he => h.kinds e (hp.mem_iff.mp he)⟩

variable [Number α]

theorem mergeEntries_cons (m : KeyedMetric α) (now : Nat) (e : Entry α) (rest : List (Entry α)) :
    mergeEntries m now (e :: rest) =
      if e.key = m.key then
        (e.aggregate.insert m.value m.sampleRate).map fun a =>
          { e with aggregate := a, lastSeen := now } :: rest
      else (mergeEntries m now rest).map (e :: ·) := by
  simp only [mergeEntries, Key.same_iff]

theorem mergeEntries_cons_ok (m : KeyedMetric α) (now : Nat) (e : Entry α)
    (rest merged : List (Entry α)) (h : mergeEntries m now (e :: rest) = .ok merged) :
    (e.key = m.key ∧ ∃ a, e.aggregate.insert m.value m.sampleRate = .ok a ∧
      merged = { e with aggregate := a, lastSeen := now } :: rest) ∨
    (e.key ≠ m.key ∧ ∃ others, mergeEntries m now rest = .ok others ∧ merged = e :: others) := by
  rw [mergeEntries_cons] at h
  by_cases hk : e.key = m.key
  · rw [if_pos hk] at h
    cases ha : e.aggregate.insert m.value m.sampleRate with
    | error mismatch => simp [ha, Except.map] at h
    | ok a =>
      simp only [ha, Except.map, Except.ok.injEq] at h
      exact .inl ⟨hk, a, rfl, h.symm⟩
  · rw [if_neg hk] at h
    cases hr : mergeEntries m now rest with
    | error mismatch => simp [hr, Except.map] at h
    | ok others =>
      simp only [hr, Except.map, Except.ok.injEq] at h
      exact .inr ⟨hk, others, rfl, h.symm⟩

-- Everything that a merge can do: the entry of the identity is changed in its place, or there was
-- none and a new one is added at the end.
theorem mergeEntries_cases (m : KeyedMetric α) (now : Nat) (entries merged : List (Entry α))
    (h : mergeEntries m now entries = .ok merged) :
    (∃ before e after a, entries = before ++ e :: after ∧ (∀ x ∈ before, x.key ≠ m.key) ∧
      e.key = m.key ∧ e.aggregate.insert m.value m.sampleRate = .ok a ∧
      merged = before ++ { e with aggregate := a, lastSeen := now } :: after) ∨
    ((∀ e ∈ entries, e.key ≠ m.key) ∧
      merged = entries ++ [⟨m.key, .start m.value m.sampleRate, now⟩]) := by
  induction entries generalizing merged with
  | nil =>
    simp only [mergeEntries, Except.ok.injEq] at h
    exact .inr ⟨by simp, by simp [h]⟩
  | cons e rest ih =>
    rcases mergeEntries_cons_ok m now e rest merged h with ⟨hk, a, ha, rfl⟩ | ⟨hk, others, hr, rfl⟩
    · exact .inl ⟨[], e, rest, a, rfl, by simp, hk, ha, rfl⟩
    · rcases ih others hr with ⟨before, x, after, a, rfl, hb, hx, ha, rfl⟩ | ⟨hn, rfl⟩
      · exact .inl ⟨e :: before, x, after, a, rfl, List.forall_mem_cons.mpr ⟨hk, hb⟩, hx, ha, rfl⟩
      · exact .inr ⟨List.forall_mem_cons.mpr ⟨hk, hn⟩, rfl⟩

-- A metric under its own identity always finds an aggregate of its kind.
theorem mergeEntries_ok (m : KeyedMetric α) (now : Nat) (entries : List (Entry α))
    (hm : m.Coherent) (hk : ∀ e ∈ entries, e.aggregate.kind = e.key.kind) :
    ∃ merged, mergeEntries m now entries = .ok merged := by
  induction entries with
  | nil => exact ⟨_, rfl⟩
  | cons e rest ih =>
    rw [mergeEntries_cons]
    by_cases he : e.key = m.key
    · have hkind : e.aggregate.kind = m.value.kind := by
        rw [hk e List.mem_cons_self, he, hm]
      obtain ⟨a, ha⟩ := e.aggregate.insert_of_kind m.value m.sampleRate hkind
      exact ⟨_, by rw [if_pos he, ha]; rfl⟩
    · obtain ⟨merged, hr⟩ := ih fun x hx => hk x (List.mem_cons_of_mem _ hx)
      exact ⟨_, by rw [if_neg he, hr]; rfl⟩

theorem mergeEntries_error (m : KeyedMetric α) (now : Nat) (entries : List (Entry α))
    (mismatch : KindMismatch) (h : mergeEntries m now entries = .error mismatch) :
    ∃ e ∈ entries, e.key = m.key ∧ e.aggregate.kind ≠ m.value.kind := by
  induction entries with
  | nil => cases h
  | cons e rest ih =>
    rw [mergeEntries_cons] at h
    by_cases hk : e.key = m.key
    · refine ⟨e, List.mem_cons_self, hk, fun hkind => ?_⟩
      obtain ⟨a, ha⟩ := e.aggregate.insert_of_kind m.value m.sampleRate hkind
      simp [hk, ha, Except.map] at h
    · rw [if_neg hk] at h
      cases hr : mergeEntries m now rest with
      | error other =>
        obtain ⟨x, hx, hfits⟩ := ih (by simpa [hr, Except.map] using h)
        exact ⟨x, List.mem_cons_of_mem _ hx, hfits⟩
      | ok others => simp [hr, Except.map] at h

theorem merge_eq_ok (s t : Shard α) (m : KeyedMetric α) (now : Nat) (h : s.merge m now = .ok t) :
    ∃ entries, mergeEntries m now s.entries = .ok entries ∧ t = { s with entries } := by
  rw [merge] at h
  cases hentries : mergeEntries m now s.entries with
  | error mismatch => simp [hentries, Except.map] at h
  | ok entries => exact ⟨entries, rfl, by simpa [hentries, Except.map] using h.symm⟩

theorem mergeEntries_distinct (m : KeyedMetric α) (now : Nat) (entries merged : List (Entry α))
    (hs : (entries.map Entry.key).Nodup) (h : mergeEntries m now entries = .ok merged) :
    (merged.map Entry.key).Nodup := by
  rcases mergeEntries_cases m now entries merged h with
    ⟨before, e, after, a, rfl, -, -, -, rfl⟩ | ⟨hn, rfl⟩
  · simpa using hs
  · rw [List.map_append, List.nodup_append]
    refine ⟨hs, by simp, ?_⟩
    intro k hk l hl
    obtain ⟨e, he, rfl⟩ := List.mem_map.mp hk
    simp only [List.map_cons, List.map_nil, List.mem_singleton] at hl
    exact hl ▸ hn e he

theorem mergeEntries_sound (m : KeyedMetric α) (now : Nat) (entries merged : List (Entry α))
    (hm : m.Coherent) (hs : Sound entries) (h : mergeEntries m now entries = .ok merged) :
    Sound merged := by
  refine ⟨mergeEntries_distinct m now entries merged hs.distinct h, fun x hx => ?_⟩
  rcases mergeEntries_cases m now entries merged h with
    ⟨before, e, after, a, rfl, -, -, ha, rfl⟩ | ⟨-, rfl⟩
  · simp only [List.mem_append, List.mem_cons] at hx
    rcases hx with hx | rfl | hx
    · exact hs.kinds x (by simp [hx])
    · exact (Aggregate.kind_insert ha).trans (hs.kinds e (by simp))
    · exact hs.kinds x (by simp [hx])
  · rcases List.mem_append.mp hx with hx | hx
    · exact hs.kinds x hx
    · rw [List.mem_singleton.mp hx]
      exact (Aggregate.kind_start _ _).trans hm.symm

@[simp] theorem reset_key (e : Entry α) : e.reset.key = e.key := by
  unfold Entry.reset; split <;> (try split) <;> rfl

@[simp] theorem reset_lastSeen (e : Entry α) : e.reset.lastSeen = e.lastSeen := by
  unfold Entry.reset; split <;> (try split) <;> rfl

@[simp] theorem reset_kind (e : Entry α) : e.reset.aggregate.kind = e.aggregate.kind := by
  unfold Entry.reset; split <;> (try split) <;> simp_all [Aggregate.kind]

theorem counterReading_key (e : Entry α) (r : CounterReading α) (hk : e.aggregate.kind = e.key.kind)
    (h : e.counterReading? = some r) : e.key = r.series.key .counter := by
  unfold Entry.counterReading? at h
  split at h
  · rename_i ha
    cases h
    exact (Series.key_eq_iff _ _ _).mpr ⟨by rw [← hk, ha]; rfl, rfl⟩
  · cases h

omit [Number α] in
theorem gaugeReading_key (e : Entry α) (r : GaugeReading α) (hk : e.aggregate.kind = e.key.kind)
    (h : e.gaugeReading? = some r) : e.key = r.series.key .gauge := by
  unfold Entry.gaugeReading? at h
  split at h
  · rename_i ha
    cases h
    exact (Series.key_eq_iff _ _ _).mpr ⟨by rw [← hk, ha]; rfl, rfl⟩
  · cases h

omit [Number α] in
theorem setReading_key (e : Entry α) (r : SetReading) (hk : e.aggregate.kind = e.key.kind)
    (h : e.setReading? = some r) : e.key = r.series.key .set := by
  unfold Entry.setReading? at h
  split at h
  · rename_i ha
    split at h <;> cases h
    exact (Series.key_eq_iff _ _ _).mpr ⟨by rw [← hk, ha]; rfl, rfl⟩
  · cases h

omit [Number α] in
theorem timerReading_key (e : Entry α) (r : TimerReading α) (hk : e.aggregate.kind = e.key.kind)
    (h : e.timerReading? = some r) : e.key = r.series.key .timer := by
  unfold Entry.timerReading? at h
  split at h
  · rename_i ha
    split at h <;> cases h
    exact (Series.key_eq_iff _ _ _).mpr ⟨by rw [← hk, ha]; rfl, rfl⟩
  · cases h

theorem snapshot_once (s : Shard α) (now : Nat) (hs : Sound s.entries) :
    (s.snapshot now).2.Once := by
  have hlive := hs.sublist (List.filter_sublist (p := fun e => !s.isIdle now e))
  exact
    { counters := nodup_readings Entry.key CounterReading.series (·.key .counter) _ _
        (fun e he r => counterReading_key e r (hlive.kinds e he)) hlive.distinct
      gauges := nodup_readings Entry.key GaugeReading.series (·.key .gauge) _ _
        (fun e he r => gaugeReading_key e r (hlive.kinds e he)) hlive.distinct
      sets := nodup_readings Entry.key SetReading.series (·.key .set) _ _
        (fun e he r => setReading_key e r (hlive.kinds e he)) hlive.distinct
      timers := nodup_readings Entry.key TimerReading.series (·.key .timer) _ _
        (fun e he r => timerReading_key e r (hlive.kinds e he)) hlive.distinct }

theorem mem_snapshot (s : Shard α) (now : Nat) (x : Entry α)
    (h : x ∈ (s.snapshot now).1.entries) : ∃ e ∈ s.entries, e.reset = x := by
  obtain ⟨e, he, rfl⟩ := List.mem_map.mp h
  exact ⟨e, List.mem_of_mem_filter (List.mem_of_mem_filter he), rfl⟩

theorem snapshot_distinct (s : Shard α) (now : Nat) (hs : (s.entries.map Entry.key).Nodup) :
    ((s.snapshot now).1.entries.map Entry.key).Nodup := by
  have hkept := hs.sublist (((List.filter_sublist
    (p := fun e : Entry α => s.expiry.get e.key.kind != 0)).trans
      (List.filter_sublist (p := fun e => !s.isIdle now e))).map Entry.key)
  simpa [snapshot, Function.comp_def] using hkept

theorem snapshot_sound (s : Shard α) (now : Nat) (hs : Sound s.entries) :
    Sound (s.snapshot now).1.entries := by
  refine ⟨snapshot_distinct s now hs.distinct, fun x hx => ?_⟩
  obtain ⟨e, he, rfl⟩ := mem_snapshot s now x hx
  simpa using hs.kinds e he

end Shard

end StatsDaemon
