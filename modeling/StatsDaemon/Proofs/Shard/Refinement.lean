import StatsDaemon.Proofs.Shard.Life
import StatsDaemon.Proofs.Shard.Scan

namespace StatsDaemon

variable {α : Type} [Number α]

structure Entry.Follows (e : Entry α) (life : Life α) : Prop where
  lastSeen : e.lastSeen = life.lastSeen
  runs : life.Runs e.key
  holds : life.Holds e.key.kind e.aggregate

-- The entries of a shard are those of the lives in the ledger, and each follows its life.
structure Shard.Follows (s : Shard α) (l : Ledger α) : Prop where
  distinct : (s.entries.map Entry.key).Nodup
  entries : ∀ e ∈ s.entries, ∃ life, l.lives e.key = some life ∧ e.Follows life
  lives : ∀ k life, l.lives k = some life → ∃ e ∈ s.entries, e.key = k
  events : s.events = l.events.take s.maxEvents

namespace Shard

theorem follows_empty (c : Config.Aggregation) : (ofSettings c : Shard α).Follows .empty :=
  ⟨List.nodup_nil, by simp [ofSettings], by simp [Ledger.empty], by simp [ofSettings, Ledger.empty]⟩

theorem Follows.sound {s : Shard α} {l : Ledger α} (h : s.Follows l) : Sound s.entries := by
  refine ⟨h.distinct, fun e he => ?_⟩
  obtain ⟨life, -, hf⟩ := h.entries e he
  exact hf.holds.kind

theorem Follows.entry {s : Shard α} {l : Ledger α} (h : s.Follows l) (k : Key) (life : Life α)
    (hl : l.lives k = some life) : ∃ e ∈ s.entries, e.key = k ∧ e.Follows life := by
  obtain ⟨e, he, rfl⟩ := h.lives k life hl
  obtain ⟨other, hother, hf⟩ := h.entries e he
  obtain rfl : other = life := Option.some.inj (hother.symm.trans hl)
  exact ⟨e, he, rfl, hf⟩

omit [Number α] in
theorem lives_merge_of_ne (l : Ledger α) (m : Metric α) (now : Nat) (k : Key) (hk : k ≠ m.key) :
    (l.merge m now).lives k = l.lives k := by
  simp [Ledger.merge, Function.update_of_ne hk]

theorem Follows.merge_known {s : Shard α} {l : Ledger α} (h : s.Follows l) (m : Metric α)
    (now : Nat) (before after : List (Entry α)) (e : Entry α) (a : Aggregate α)
    (hs : s.entries = before ++ e :: after) (he : e.key = m.key)
    (ha : e.aggregate.insert m.value m.sampleRate = .ok a) :
    ({ s with entries := before ++ { e with aggregate := a, lastSeen := now } :: after } :
      Shard α).Follows (l.merge m now) := by
  have hkeys := h.distinct
  rw [hs, List.map_append, List.map_cons] at hkeys
  -- No other entry has the identity, so the lives of all others go on as they were.
  have hunique : ∀ x, x ∈ before ∨ x ∈ after → x.key ≠ m.key := by
    intro x hx heq
    apply (List.nodup_middle.mp hkeys).notMem
    rw [← List.map_append, he, ← heq]
    exact List.mem_map_of_mem (List.mem_append.mpr hx)
  have hmem : ∀ x, x ∈ s.entries ↔ (x ∈ before ∨ x ∈ after) ∨ x = e := fun x => by
    simp only [hs, List.mem_append, List.mem_cons]; tauto
  obtain ⟨life, hl, hf⟩ := h.entries e (by simp [hs])
  refine ⟨by simpa using hkeys, fun x hx => ?_, fun k other hk => ?_, h.events⟩
  · have hcases : (x ∈ before ∨ x ∈ after) ∨ x = { e with aggregate := a, lastSeen := now } := by
      simp only [List.mem_append, List.mem_cons] at hx; tauto
    rcases hcases with hx | rfl
    · rw [lives_merge_of_ne l m now _ (hunique x hx)]
      exact h.entries x ((hmem x).mpr (.inl hx))
    · refine ⟨life.add m now, by simp [Ledger.merge, ← he, hl], rfl, hf.runs.add m now he.symm, ?_⟩
      exact hf.holds.insert hf.runs m now he.symm ha
  · by_cases hkey : k = m.key
    · exact ⟨{ e with aggregate := a, lastSeen := now }, by simp, he.trans hkey.symm⟩
    · rw [lives_merge_of_ne l m now k hkey] at hk
      obtain ⟨x, hx, rfl⟩ := h.lives k other hk
      rcases (hmem x).mp hx with hx | rfl
      · exact ⟨x, by simp only [List.mem_append, List.mem_cons]; tauto, rfl⟩
      · exact absurd he hkey

theorem Follows.merge_new {s : Shard α} {l : Ledger α} (h : s.Follows l) (m : Metric α) (now : Nat)
    (hn : ∀ e ∈ s.entries, e.key ≠ m.key) :
    ({ s with entries := s.entries ++ [⟨m.key, .start m.value m.sampleRate, now⟩] } :
      Shard α).Follows (l.merge m now) := by
  have hnone : l.lives m.key = none := by
    cases hl : l.lives m.key with
    | none => rfl
    | some life =>
      obtain ⟨e, he, hek⟩ := h.lives m.key life hl
      exact absurd hek (hn e he)
  refine ⟨?_, fun x hx => ?_, fun k other hk => ?_, h.events⟩
  · rw [List.map_append, List.nodup_append]
    refine ⟨h.distinct, by simp, fun k hk other hother => ?_⟩
    obtain ⟨e, he, rfl⟩ := List.mem_map.mp hk
    rw [List.map_singleton, List.mem_singleton] at hother
    exact hother ▸ hn e he
  · rcases List.mem_append.mp hx with hx | hx
    · rw [lives_merge_of_ne l m now _ (hn x hx)]
      exact h.entries x hx
    · rw [List.mem_singleton.mp hx]
      exact ⟨.born m now, by simp [Ledger.merge, hnone], rfl, Life.runs_born m now,
        Life.Holds.start m now⟩
  · by_cases hkey : k = m.key
    · exact ⟨⟨m.key, .start m.value m.sampleRate, now⟩, by simp, hkey.symm⟩
    · rw [lives_merge_of_ne l m now k hkey] at hk
      obtain ⟨x, hx, rfl⟩ := h.lives k other hk
      exact ⟨x, by simp [hx], rfl⟩

theorem Follows.merge {s : Shard α} {l : Ledger α} (h : s.Follows l) (m : Metric α) (now : Nat)
    (entries : List (Entry α)) (hm : mergeEntries m.keyed now s.entries = .ok entries) :
    ({ s with entries } : Shard α).Follows (l.merge m now) := by
  rcases mergeEntries_cases m.keyed now s.entries entries hm with
    ⟨before, e, after, a, hs, -, he, ha, rfl⟩ | ⟨hn, rfl⟩
  · exact h.merge_known m now before after e a hs he ha
  · exact h.merge_new m now hn

omit [Number α] in
theorem addEvent_accepted (s : Shard α) (offered : List Event) (e : Event)
    (h : s.events = offered.take s.maxEvents) :
    (s.addEvent e).2 = decide (offered.length < s.maxEvents) := by
  have hlength : s.events.length = min s.maxEvents offered.length := by rw [h, List.length_take]
  unfold addEvent
  split
  · exact (decide_eq_false (by omega)).symm
  · exact (decide_eq_true (by omega)).symm

theorem Follows.addEvent {s : Shard α} {l : Ledger α} (h : s.Follows l) (e : Event) :
    (s.addEvent e).1.Follows (l.addEvent e) := by
  have hlength : s.events.length = min s.maxEvents l.events.length := by
    rw [h.events, List.length_take]
  unfold Shard.addEvent
  split
  · have hfull : s.maxEvents ≤ l.events.length := by omega
    refine ⟨h.distinct, h.entries, h.lives, ?_⟩
    rw [Ledger.addEvent, List.take_append_of_le_length hfull]
    exact h.events
  · have hroom : l.events.length + 1 ≤ s.maxEvents := by omega
    refine ⟨h.distinct, h.entries, h.lives, ?_⟩
    rw [Ledger.addEvent, List.take_of_length_le (by simpa using hroom)]
    simp [h.events, List.take_of_length_le (Nat.le_of_succ_le hroom)]

-- Those that leave in a scan are the ones that the ledger forgets.
theorem Follows.scanned {s scanned : Shard α} {l : Ledger α} {now : Nat} {gone : List (Entry α)}
    (h : s.Follows l) (hs : Scanned s now scanned gone) :
    scanned.Follows (l.forget (gone.map Entry.key)) := by
  have hall : (gone.map Entry.key ++ scanned.entries.map Entry.key).Nodup := by
    rw [← List.map_append]
    exact (hs.entries.map _).nodup_iff.mpr h.distinct
  obtain ⟨-, hdistinct, hapart⟩ := List.nodup_append.mp hall
  have hmem : ∀ e, e ∈ s.entries ↔ e ∈ gone ∨ e ∈ scanned.entries := fun e => by
    rw [← hs.entries.mem_iff, List.mem_append]
  refine ⟨hdistinct, fun e he => ?_, fun k life hl => ?_, ?_⟩
  · have hstays : e.key ∉ gone.map Entry.key := fun hk =>
      hapart e.key hk e.key (List.mem_map_of_mem he) rfl
    simp only [Ledger.forget, if_neg hstays]
    exact h.entries e ((hmem e).mpr (.inr he))
  · simp only [Ledger.forget, Option.ite_none_left_eq_some] at hl
    obtain ⟨e, he, rfl⟩ := h.lives k life hl.2
    rcases (hmem e).mp he with he | he
    · exact absurd (List.mem_map_of_mem he) hl.1
    · exact ⟨e, he, rfl⟩
  · rw [hs.events, hs.maxEvents]
    exact h.events

theorem Follows.idle {s : Shard α} {l : Ledger α} (h : s.Follows l) (now : Nat) (e : Entry α)
    (he : e ∈ s.entries) (hidle : s.isIdle now e = true) : l.Idle s.expiry now e.key := by
  obtain ⟨life, hl, hf⟩ := h.entries e he
  exact ⟨life, hl, hf.lastSeen ▸ hidle⟩

theorem mem_kept_iff (s : Shard α) (now : Nat) (x : Entry α) :
    x ∈ (s.snapshot now).1.entries ↔ ∃ e ∈ s.entries, s.isIdle now e = false ∧
      s.expiry.get e.key.kind ≠ 0 ∧ e.reset = x := by
  simp [snapshot, and_assoc, and_left_comm]

theorem live_eq_some_iff (s : Shard α) (l : Ledger α) (now : Nat) (e : Entry α) (life : Life α)
    (hl : l.lives e.key = some life) (hf : e.Follows life) :
    l.live s.expiry now e.key = some life ↔ s.isIdle now e = false := by
  simp [Ledger.live, hl, Option.filter, isIdle, hf.lastSeen]

theorem Follows.close {s : Shard α} {l : Ledger α} (h : s.Follows l) (now : Nat) :
    (s.snapshot now).1.Follows (l.close s.expiry now) := by
  refine ⟨(snapshot_sound s now h.sound).distinct, fun x hx => ?_, fun k other hk => ?_,
    by simp [snapshot, Ledger.close]⟩
  · obtain ⟨e, he, hidle, hzero, rfl⟩ := (mem_kept_iff s now x).mp hx
    obtain ⟨life, hl, hf⟩ := h.entries e he
    have hlive := (live_eq_some_iff s l now e life hl hf).mpr hidle
    refine ⟨life.close, by simp [Ledger.close, hzero, hlive], ?_, ?_, ?_⟩
    · exact (reset_lastSeen e).trans hf.lastSeen
    · exact (reset_key e).symm ▸ hf.runs.close
    · exact (reset_key e).symm ▸ hf.holds.reset hf.runs
  · simp only [Ledger.close, Option.ite_none_left_eq_some, Option.map_eq_some_iff] at hk
    obtain ⟨hzero, life, hlive, rfl⟩ := hk
    obtain ⟨hl, -⟩ := Option.filter_eq_some_iff.mp hlive
    obtain ⟨e, he, rfl, hf⟩ := h.entry k life hl
    exact ⟨e.reset, (mem_kept_iff s now _).mpr
      ⟨e, he, (live_eq_some_iff s l now e life hl hf).mp hlive, hzero, rfl⟩, reset_key e⟩

-- A list of readings, each taken from an entry of one kind: an identity stands there if its life is
-- one that is read.
theorem Follows.readings {s : Shard α} {l : Ledger α} (h : s.Follows l) (now : Nat) {β : Type}
    (kind : Kind) (series : β → Series) (read : Entry α → Option β) (Read : Life α → β → Prop)
    (hread : ∀ (e : Entry α) (life : Life α) (r : β), e.Follows life →
      (read e = some r ↔ e.key = (series r).key kind ∧ Read life r)) (r : β) :
    r ∈ (s.entries.filter fun e => !s.isIdle now e).filterMap read ↔
      ∃ life, l.live s.expiry now ((series r).key kind) = some life ∧ Read life r := by
  simp only [List.mem_filterMap, List.mem_filter, Bool.not_eq_eq_eq_not, Bool.not_true]
  constructor
  · rintro ⟨e, ⟨he, hidle⟩, hr⟩
    obtain ⟨life, hl, hf⟩ := h.entries e he
    obtain ⟨hk, hlife⟩ := (hread e life r hf).mp hr
    exact ⟨life, hk ▸ (live_eq_some_iff s l now e life hl hf).mpr hidle, hlife⟩
  · rintro ⟨life, hlive, hlife⟩
    obtain ⟨hl, -⟩ := Option.filter_eq_some_iff.mp hlive
    obtain ⟨e, he, hk, hf⟩ := h.entry _ life hl
    have hidle := (live_eq_some_iff s l now e life (hk ▸ hl) hf).mp (hk ▸ hlive)
    exact ⟨e, ⟨he, hidle⟩, (hread e life r hf).mpr ⟨hk, hlife⟩⟩

end Shard

namespace Entry.Follows

theorem counterReading_iff {e : Entry α} {life : Life α} {r : CounterReading α}
    (h : e.Follows life) :
    e.counterReading? = some r ↔
      e.key = r.series.key .counter ∧ r.delta = life.delta ∧ r.total = life.total := by
  have hholds := h.holds
  rw [life.total_eq]
  constructor
  · intro hr
    have hkey := Shard.counterReading_key e r h.holds.kind hr
    rw [((Series.key_eq_iff _ _ _).mp hkey).1, Life.holds_counter_iff] at hholds
    simp only [counterReading?, hholds, Option.some.injEq] at hr
    subst hr
    exact ⟨hkey, rfl, rfl⟩
  · rintro ⟨hkey, hdelta, htotal⟩
    obtain ⟨hk, hseries⟩ := (Series.key_eq_iff _ _ _).mp hkey
    rw [hk, Life.holds_counter_iff] at hholds
    obtain ⟨series, delta, total⟩ := r
    simp_all [counterReading?]

theorem gaugeReading_iff {e : Entry α} {life : Life α} {r : GaugeReading α} (h : e.Follows life) :
    e.gaugeReading? = some r ↔ e.key = r.series.key .gauge ∧ life.gauge? = some r.value := by
  have hholds := h.holds
  constructor
  · intro hr
    have hkey := Shard.gaugeReading_key e r h.holds.kind hr
    rw [((Series.key_eq_iff _ _ _).mp hkey).1, Life.holds_gauge_iff] at hholds
    obtain ⟨x, hx, hlatest⟩ := hholds
    simp only [gaugeReading?, hx, Option.some.injEq] at hr
    subst hr
    exact ⟨hkey, hlatest⟩
  · rintro ⟨hkey, hvalue⟩
    obtain ⟨hk, hseries⟩ := (Series.key_eq_iff _ _ _).mp hkey
    rw [hk, Life.holds_gauge_iff] at hholds
    obtain ⟨x, hx, hlatest⟩ := hholds
    obtain rfl : x = r.value := Option.some.inj (hlatest.symm.trans hvalue)
    simp [gaugeReading?, hx, hseries]

theorem members_of_set {e : Entry α} {life : Life α} (h : e.Follows life)
    (hk : e.key.kind = .set) :
    ∃ members, e.aggregate = .set members ∧ (members = [] ↔ life.window = []) ∧
      members.length = life.members.toFinset.card := by
  have hholds := h.holds
  rw [hk, Life.holds_set_iff] at hholds
  obtain ⟨members, ha, hnodup, hmem⟩ := hholds
  refine ⟨members, ha, ?_, ?_⟩
  · rw [← h.runs.members_eq_nil_iff hk, List.eq_nil_iff_forall_not_mem,
      List.eq_nil_iff_forall_not_mem]
    simp [hmem]
  · have hsame : members.toFinset = life.members.toFinset := by
      ext
      simp [hmem]
    rw [← hsame, List.toFinset_card_of_nodup hnodup]

theorem setReading_iff {e : Entry α} {life : Life α} {r : SetReading} (h : e.Follows life) :
    e.setReading? = some r ↔ e.key = r.series.key .set ∧ life.window ≠ [] ∧
      r.cardinality = life.members.toFinset.card := by
  constructor
  · intro hr
    have hkey := Shard.setReading_key e r h.holds.kind hr
    obtain ⟨members, ha, hempty, hlength⟩ := h.members_of_set ((Series.key_eq_iff _ _ _).mp hkey).1
    simp only [setReading?, ha, List.isEmpty_iff, Option.ite_none_left_eq_some,
      Option.some.injEq] at hr
    obtain ⟨hne, rfl⟩ := hr
    exact ⟨hkey, fun hw => hne (hempty.mpr hw), hlength⟩
  · rintro ⟨hkey, hw, hcardinality⟩
    obtain ⟨hk, hseries⟩ := (Series.key_eq_iff _ _ _).mp hkey
    obtain ⟨members, ha, hempty, hlength⟩ := h.members_of_set hk
    have hne : members ≠ [] := fun hnil => hw (hempty.mp hnil)
    simp [setReading?, ha, hne, hseries, hlength, ← hcardinality]

theorem timerReading_iff {e : Entry α} {life : Life α} {r : TimerReading α} (h : e.Follows life) :
    e.timerReading? = some r ↔ e.key = r.series.key .timer ∧ life.window ≠ [] ∧
      r.samples = life.samples ∧ r.sampledCount = life.weight := by
  have hholds := h.holds
  constructor
  · intro hr
    have hkey := Shard.timerReading_key e r h.holds.kind hr
    have hk := ((Series.key_eq_iff _ _ _).mp hkey).1
    rw [hk, Life.holds_timer_iff] at hholds
    simp only [timerReading?, hholds, List.isEmpty_iff, Option.ite_none_left_eq_some,
      Option.some.injEq, h.runs.samples_eq_nil_iff hk] at hr
    obtain ⟨hne, rfl⟩ := hr
    exact ⟨hkey, hne, rfl, rfl⟩
  · rintro ⟨hkey, hw, hsamples, hcount⟩
    obtain ⟨hk, hseries⟩ := (Series.key_eq_iff _ _ _).mp hkey
    rw [hk, Life.holds_timer_iff] at hholds
    obtain ⟨series, samples, count⟩ := r
    have hne : life.samples ≠ [] := fun hnil => hw ((h.runs.samples_eq_nil_iff hk).mp hnil)
    simp_all [timerReading?]

end Entry.Follows

theorem Shard.Follows.reports {s : Shard α} {l : Ledger α} (h : s.Follows l) (now : Nat) :
    l.Reports s.expiry s.maxEvents now (s.snapshot now).2 := by
  have hcounters := h.readings now .counter CounterReading.series Entry.counterReading?
    (fun life r => r.delta = life.delta ∧ r.total = life.total)
    fun _ _ _ hf => hf.counterReading_iff
  have hgauges := h.readings now .gauge GaugeReading.series Entry.gaugeReading?
    (fun life r => life.gauge? = some r.value) fun _ _ _ hf => hf.gaugeReading_iff
  have hsets := h.readings now .set SetReading.series Entry.setReading?
    (fun life r => life.window ≠ [] ∧ r.cardinality = life.members.toFinset.card)
    fun _ _ _ hf => hf.setReading_iff
  have htimers := h.readings now .timer TimerReading.series Entry.timerReading?
    (fun life r => life.window ≠ [] ∧ r.samples = life.samples ∧ r.sampledCount = life.weight)
    fun _ _ _ hf => hf.timerReading_iff
  refine ⟨snapshot_once s now h.sound, hcounters, hgauges, hsets, htimers, h.events, ?_⟩
  have hidle : ((s.entries.filter (s.isIdle now)).map Entry.key).Nodup :=
    h.distinct.sublist (List.filter_sublist.map _)
  refine ⟨((s.entries.filter (s.isIdle now)).map Entry.key).toFinset, fun k => ?_, ?_⟩
  · simp only [List.mem_toFinset, List.mem_map, List.mem_filter]
    constructor
    · rintro ⟨e, ⟨he, hi⟩, rfl⟩
      exact h.idle now e he hi
    · rintro ⟨life, hl, hi⟩
      obtain ⟨e, he, rfl, hf⟩ := h.entry k life hl
      exact ⟨e, ⟨he, by rw [isIdle, hf.lastSeen]; exact hi⟩, rfl⟩
  · rw [List.toFinset_card_of_nodup hidle, List.length_map]
    have hsplit := List.length_eq_length_filter_add (l := s.entries) (s.isIdle now)
    simp only [snapshot]
    omega

-- One operation: its outcome is one that the ledger allows, and the shard follows the new ledger.
theorem Shard.Follows.perform {s : Shard α} {l : Ledger α} (h : s.Follows l)
    (o : Shard.Operation α) :
    ∃ next, Ledger.Step s.expiry s.maxEvents l o (s.perform o).2 next ∧
      (s.perform o).1.Follows next ∧ (s.perform o).1.expiry = s.expiry ∧
      (s.perform o).1.maxEvents = s.maxEvents := by
  cases o with
  | merge m now =>
    obtain ⟨entries, hentries, hperform, -⟩ := s.perform_merge m now h.sound
    rw [hperform]
    exact ⟨l.merge m now, .merge l m now, h.merge m now entries hentries, rfl, rfl⟩
  | addEvent e =>
    refine ⟨l.addEvent e, ?_, h.addEvent e, ?_⟩
    · simp only [Shard.perform, addEvent_accepted s l.events e h.events]
      exact .addEvent l e
    · simp only [Shard.perform, Shard.addEvent]
      split <;> exact ⟨rfl, rfl⟩
  | expire now chunk =>
    obtain ⟨gone, hs, hcount, hle⟩ := expireChunk_scanned s now chunk
    refine ⟨l.forget (gone.map Entry.key), ?_, h.scanned hs, hs.expiry, hs.maxEvents⟩
    have hdistinct : (gone.map Entry.key).Nodup :=
      ((h.sound.perm hs.entries).sublist (List.sublist_append_left _ _)).distinct
    have hidle : ∀ k ∈ gone.map Entry.key, l.Idle s.expiry now k := by
      intro k hk
      obtain ⟨e, he, rfl⟩ := List.mem_map.mp hk
      exact h.idle now e (hs.entries.subset (List.mem_append_left _ he)) (hs.idle e he)
    have hstep : Ledger.Step s.expiry s.maxEvents l (.expire now chunk)
        (.expired ⟨(gone.map Entry.key).length, (s.expireChunk now chunk).2.finished⟩)
        (l.forget (gone.map Entry.key)) :=
      .expire l now chunk _ _ hdistinct hidle (by simpa using hle)
    rw [List.length_map, ← hcount] at hstep
    exact hstep
  | snapshot now =>
    exact ⟨l.close s.expiry now, .snapshot l now _ (h.reports now), h.close now, rfl, rfl⟩

-- After every operation of a run the outcome is one that the ledger allows, and the shard still
-- follows the ledger.
def Shard.Refines (expiry : ExpiryIntervals) (limit : Nat) (s : Shard α) (l : Ledger α) :
    List (Shard.Operation α) → Prop
  | [] => True
  | o :: rest => ∃ next, Ledger.Step expiry limit l o (s.perform o).2 next ∧
      (s.perform o).1.Follows next ∧ Refines expiry limit (s.perform o).1 next rest

theorem Shard.Follows.refines {s : Shard α} {l : Ledger α} (h : s.Follows l)
    (run : List (Shard.Operation α)) : Shard.Refines s.expiry s.maxEvents s l run := by
  induction run generalizing s l with
  | nil => trivial
  | cons o rest ih =>
    obtain ⟨next, hstep, hfollows, hexpiry, hlimit⟩ := h.perform o
    refine ⟨next, hstep, hfollows, ?_⟩
    rw [← hexpiry, ← hlimit]
    exact ih hfollows

theorem shard_refines_ledger (c : Config.Aggregation) (run : List (Shard.Operation α)) :
    Shard.Refines (.ofSettings c) c.maxEvents (.ofSettings c) .empty run :=
  (Shard.follows_empty c).refines run

end StatsDaemon
