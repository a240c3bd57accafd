import StatsDaemon.Proofs.Shard.Refinement

namespace StatsDaemon

variable {α : Type} [Number α]

omit [Number α] in
def Shard.Outcome.report? : Shard.Outcome α → Option (Snapshot α)
  | .reported s => some s
  | _ => none

omit [Number α] in
def Shard.Operation.metric? : Shard.Operation α → Option (Metric α)
  | .merge m _ => some m
  | _ => none

namespace Shard

def run (s : Shard α) (ops : List (Operation α)) : Shard α :=
  ops.foldl (fun s o => (s.perform o).1) s

def reports : Shard α → List (Operation α) → List (Snapshot α)
  | _, [] => []
  | s, o :: rest => (s.perform o).2.report?.toList ++ reports (s.perform o).1 rest

def mergeAll (s : Shard α) (ms : List (Metric α × Nat)) : Shard α :=
  s.run (ms.map fun p => .merge p.1 p.2)

theorem Follows.run {s : Shard α} {l : Ledger α} (h : s.Follows l) (ops : List (Operation α)) :
    ∃ next, (s.run ops).Follows next ∧ (s.run ops).expiry = s.expiry := by
  induction ops generalizing s l with
  | nil => exact ⟨l, h, rfl⟩
  | cons o rest ih =>
    obtain ⟨middle, -, hmiddle, hexpiry, -⟩ := h.perform o
    obtain ⟨next, hnext, hrest⟩ := ih hmiddle
    exact ⟨next, hnext, hrest.trans hexpiry⟩

theorem Follows.reports_once {s : Shard α} {l : Ledger α} (h : s.Follows l)
    (ops : List (Operation α)) : ∀ p ∈ s.reports ops, p.Once := by
  induction ops generalizing s l with
  | nil => exact fun p hp => nomatch hp
  | cons o rest ih =>
    obtain ⟨next, hstep, hnext, -⟩ := h.perform o
    intro p hp
    rw [Shard.reports, List.mem_append] at hp
    rcases hp with hp | hp
    · generalize (s.perform o).2 = outcome at hstep hp
      cases hstep with
      | snapshot now reported hreported =>
        exact (Option.mem_some.mp (Option.mem_toList.mp hp)) ▸ hreported.once
      | _ => cases hp
    · exact ih hnext p hp

theorem Follows.live_of_busy {s : Shard α} {l : Ledger α} (h : s.Follows l) (now : Nat)
    (hbusy : ∀ e ∈ s.entries, s.isIdle now e = false) (k : Key) :
    l.live s.expiry now k = l.lives k := by
  cases hl : l.lives k with
  | none => simp [Ledger.live, hl]
  | some life =>
    obtain ⟨e, he, rfl, hf⟩ := h.entry k life hl
    exact (live_eq_some_iff s l now e life hl hf).mpr (hbusy e he)

end Shard

omit [Number α] in
def Life.grow (life : Option (Life α)) (p : Metric α × Nat) : Option (Life α) :=
  match life with
  | none => some (born p.1 p.2)
  | some life => some (life.add p.1 p.2)

omit [Number α] in
theorem Ledger.lives_merge_self (l : Ledger α) (m : Metric α) (now : Nat) :
    (l.merge m now).lives m.key = Life.grow (l.lives m.key) (m, now) := by
  simp only [merge, Function.update_self]
  cases l.lives m.key <;> rfl

omit [Number α] in
def Ledger.All (P : Metric α → Prop) (l : Ledger α) : Prop :=
  ∀ k life, l.lives k = some life → ∀ m ∈ life.metrics, P m

theorem Ledger.Step.all {P : Metric α → Prop} {expiry : ExpiryIntervals} {limit : Nat}
    {l next : Ledger α} {o : Shard.Operation α} {outcome : Shard.Outcome α}
    (h : Step expiry limit l o outcome next) (hl : l.All P) (ho : ∀ m ∈ o.metric?, P m) :
    next.All P := by
  cases h with
  | merge m now =>
    intro k life hlife y hy
    by_cases hk : k = m.key
    · subst hk
      rw [lives_merge_self] at hlife
      cases hold : l.lives m.key with
      | none =>
        rw [hold] at hlife
        obtain rfl := Option.some.inj hlife
        exact List.mem_singleton.mp hy ▸ ho m rfl
      | some old =>
        rw [hold] at hlife
        obtain rfl := Option.some.inj hlife
        simp only [Life.metrics, Life.add, ← List.append_assoc, List.mem_append] at hy
        rcases hy with hy | hy
        · exact hl m.key old hold y (List.mem_append.mpr hy)
        · exact List.mem_singleton.mp hy ▸ ho m rfl
    · rw [Shard.lives_merge_of_ne l m now k hk] at hlife
      exact hl k life hlife y hy
  | addEvent e => exact hl
  | expire now chunk gone finished hdistinct hidle hlength =>
    intro k life hlife
    simp only [Ledger.forget, Option.ite_none_left_eq_some] at hlife
    exact hl k life hlife.2
  | snapshot now s hreports =>
    intro k life hlife y hy
    simp only [Ledger.close, Option.ite_none_left_eq_some, Option.map_eq_some_iff] at hlife
    obtain ⟨-, old, hlive, rfl⟩ := hlife
    obtain ⟨hold, -⟩ := Option.filter_eq_some_iff.mp hlive
    refine hl k old hold y ?_
    simpa [Life.metrics, Life.close] using hy

theorem Shard.Follows.run_all {P : Metric α → Prop} {s : Shard α} {l : Ledger α}
    (h : s.Follows l) (hl : l.All P) (ops : List (Operation α))
    (hops : ∀ m ∈ ops.filterMap Operation.metric?, P m) :
    ∃ next, (s.run ops).Follows next ∧ next.All P := by
  induction ops generalizing s l with
  | nil => exact ⟨l, h, hl⟩
  | cons o rest ih =>
    obtain ⟨next, hstep, hnext, -⟩ := h.perform o
    have hmem : ∀ m, m ∈ (o :: rest).filterMap Operation.metric? ↔
        m ∈ o.metric? ∨ m ∈ rest.filterMap Operation.metric? := by
      intro m
      simp only [List.mem_filterMap, List.exists_mem_cons_iff, Option.mem_def]
    refine ih hnext (hstep.all hl fun m hm => ?_) fun m hm => ?_
    · exact hops m ((hmem m).mpr (.inl hm))
    · exact hops m ((hmem m).mpr (.inr hm))

namespace Life

def counterReading (life : Life α) (x : Series) : CounterReading α :=
  ⟨x, life.delta, life.total⟩

omit [Number α] in
def gaugeReading? (life : Life α) (x : Series) : Option (GaugeReading α) :=
  life.gauge?.map (⟨x, ·⟩)

omit [Number α] in
def setReading? (life : Life α) (x : Series) : Option SetReading :=
  if life.window.isEmpty then none else some ⟨x, life.members.toFinset.card⟩

def timerReading? (life : Life α) (x : Series) : Option (TimerReading α) :=
  if life.window.isEmpty then none else some ⟨x, life.samples, life.weight⟩

end Life

omit [Number α] in
-- In a list where every series stands once, that is what there is of one of them.
theorem filter_series_eq {β : Type} (series : β → Series) (items : List β) (x : Series)
    (reading : Option β) (honce : (items.map series).Nodup)
    (h : ∀ r, r ∈ items ∧ series r = x ↔ reading = some r) :
    items.filter (fun r => series r = x) = reading.toList := by
  have hnodup : (items.filter fun r => series r = x).Nodup := (honce.of_map _).filter _
  have hperm : (items.filter fun r => series r = x).Perm reading.toList := by
    refine (List.perm_ext_iff_of_nodup hnodup ?_).mpr fun r => ?_
    · cases reading <;> simp
    · rw [List.mem_filter, decide_eq_true_iff, h, Option.mem_toList]
  cases reading with
  | none => exact List.perm_nil.mp hperm
  | some r => exact List.perm_singleton.mp hperm

namespace Ledger.Reports

variable {l : Ledger α} {expiry : ExpiryIntervals} {limit now : Nat} {s : Snapshot α}

theorem counters_of (h : l.Reports expiry limit now s) (x : Series) :
    s.counters.filter (fun r => r.series = x) =
      ((l.live expiry now (x.key .counter)).map (·.counterReading x)).toList := by
  refine filter_series_eq _ _ x _ h.once.counters fun r => ?_
  rw [h.counters, Option.map_eq_some_iff]
  constructor
  · rintro ⟨⟨life, hl, hdelta, htotal⟩, rfl⟩
    exact ⟨life, hl, by rw [Life.counterReading, ← hdelta, ← htotal]⟩
  · rintro ⟨life, hl, rfl⟩
    exact ⟨⟨life, hl, rfl, rfl⟩, rfl⟩

theorem gauges_of (h : l.Reports expiry limit now s) (x : Series) :
    s.gauges.filter (fun r => r.series = x) =
      ((l.live expiry now (x.key .gauge)).bind (·.gaugeReading? x)).toList := by
  refine filter_series_eq _ _ x _ h.once.gauges fun r => ?_
  rw [h.gauges, Option.bind_eq_some_iff]
  constructor
  · rintro ⟨⟨life, hl, hvalue⟩, rfl⟩
    exact ⟨life, hl, by rw [Life.gaugeReading?, hvalue]; rfl⟩
  · rintro ⟨life, hl, hr⟩
    obtain ⟨value, hvalue, rfl⟩ := Option.map_eq_some_iff.mp hr
    exact ⟨⟨life, hl, hvalue⟩, rfl⟩

theorem sets_of (h : l.Reports expiry limit now s) (x : Series) :
    s.sets.filter (fun r => r.series = x) =
      ((l.live expiry now (x.key .set)).bind (·.setReading? x)).toList := by
  refine filter_series_eq _ _ x _ h.once.sets fun r => ?_
  rw [h.sets, Option.bind_eq_some_iff]
  constructor
  · rintro ⟨⟨life, hl, hw, hcardinality⟩, rfl⟩
    exact ⟨life, hl, by simp [Life.setReading?, hw, ← hcardinality]⟩
  · rintro ⟨life, hl, hr⟩
    simp only [Life.setReading?, List.isEmpty_iff, Option.ite_none_left_eq_some,
      Option.some.injEq] at hr
    obtain ⟨hw, rfl⟩ := hr
    exact ⟨⟨life, hl, hw, rfl⟩, rfl⟩

theorem timers_of (h : l.Reports expiry limit now s) (x : Series) :
    s.timers.filter (fun r => r.series = x) =
      ((l.live expiry now (x.key .timer)).bind (·.timerReading? x)).toList := by
  refine filter_series_eq _ _ x _ h.once.timers fun r => ?_
  rw [h.timers, Option.bind_eq_some_iff]
  constructor
  · rintro ⟨⟨life, hl, hw, hsamples, hcount⟩, rfl⟩
    exact ⟨life, hl, by simp [Life.timerReading?, hw, ← hsamples, ← hcount]⟩
  · rintro ⟨life, hl, hr⟩
    simp only [Life.timerReading?, List.isEmpty_iff, Option.ite_none_left_eq_some,
      Option.some.injEq] at hr
    obtain ⟨hw, rfl⟩ := hr
    exact ⟨⟨life, hl, hw, rfl, rfl⟩, rfl⟩

end Ledger.Reports

end StatsDaemon
