import StatsDaemon.Proofs.Shard.Cut

namespace StatsDaemon

variable {α : Type} [Number α]

omit [Number α] in
def Ledger.mergeAll (l : Ledger α) (ms : List (Metric α × Nat)) : Ledger α :=
  ms.foldl (fun l p => l.merge p.1 p.2) l

omit [Number α] in
theorem Ledger.lives_mergeAll (l : Ledger α) (ms : List (Metric α × Nat)) (k : Key) :
    (l.mergeAll ms).lives k = (ms.filter fun p => p.1.key = k).foldl Life.grow (l.lives k) := by
  induction ms generalizing l with
  | nil => rfl
  | cons p rest ih =>
    rw [mergeAll, List.foldl_cons]
    refine (ih (l.merge p.1 p.2)).trans ?_
    by_cases hk : p.1.key = k
    · rw [List.filter_cons_of_pos (by simpa using hk), List.foldl_cons]
      congr 1
      subst hk
      exact lives_merge_self l p.1 p.2
    · rw [List.filter_cons_of_neg (by simpa using hk),
        Shard.lives_merge_of_ne l p.1 p.2 k fun heq => hk heq.symm]

omit [Number α] in
theorem Ledger.mergeAll_append (l : Ledger α) (ms more : List (Metric α × Nat)) :
    l.mergeAll (ms ++ more) = (l.mergeAll ms).mergeAll more :=
  List.foldl_append

omit [Number α] in
theorem Ledger.events_mergeAll (l : Ledger α) (ms : List (Metric α × Nat)) :
    (l.mergeAll ms).events = l.events := by
  induction ms generalizing l with
  | nil => rfl
  | cons p rest ih => exact ih (l.merge p.1 p.2)

namespace Shard

theorem Follows.mergeAll {s : Shard α} {l : Ledger α} (h : s.Follows l)
    (ms : List (Metric α × Nat)) :
    (s.mergeAll ms).Follows (l.mergeAll ms) ∧ (s.mergeAll ms).expiry = s.expiry ∧
      (s.mergeAll ms).maxEvents = s.maxEvents := by
  induction ms generalizing s l with
  | nil => exact ⟨h, rfl, rfl⟩
  | cons p rest ih =>
    obtain ⟨entries, hentries, hperform, -⟩ := s.perform_merge p.1 p.2 h.sound
    obtain ⟨hrest, hexpiry, hlimit⟩ := ih (h.merge p.1 p.2 entries hentries)
    have hcons : s.mergeAll (p :: rest) = ({ s with entries } : Shard α).mergeAll rest := by
      simp only [Shard.mergeAll, Shard.run, List.map_cons, List.foldl_cons, hperform]
    rw [hcons]
    exact ⟨hrest, hexpiry, hlimit⟩

end Shard

section

variable {β γ : Type} (series : β → Series) {items others : List β}

-- Two lists in which every series stands once, compared series by series.
theorem perm_of_filters (view : β → γ) (name : γ → Series) (hname : ∀ r, name (view r) = series r)
    (hitems : (items.map series).Nodup) (hothers : (others.map series).Nodup)
    (h : ∀ x, List.Forall₂ (fun r t => view r = view t)
      (items.filter fun r => series r = x) (others.filter fun r => series r = x)) :
    (items.map view).Perm (others.map view) := by
  have honce : ∀ list : List β, (list.map series).Nodup → (list.map view).Nodup := by
    intro list hlist
    refine List.Nodup.of_map name ?_
    rwa [List.map_map, Function.comp_def, funext hname]
  have hmem : ∀ (list : List β) (v : γ),
      v ∈ list.map view ↔ v ∈ (list.filter fun r => series r = name v).map view := by
    intro list v
    simp only [List.mem_map, List.mem_filter, decide_eq_true_eq]
    refine exists_congr fun r => and_congr_left fun hr => ?_
    rw [← hr, hname, eq_self, and_true]
  refine (List.perm_ext_iff_of_nodup (honce items hitems) (honce others hothers)).mpr fun v => ?_
  have heq : (items.filter fun r => series r = name v).map view =
      (others.filter fun r => series r = name v).map view := by
    rw [← List.forall₂_eq_eq_eq, List.forall₂_map_left_iff, List.forall₂_map_right_iff]
    exact h (name v)
  rw [hmem items, hmem others, heq]

theorem alike_of_filters (Alike : β → β → Prop) (hothers : (others.map series).Nodup)
    (h : ∀ x, List.Forall₂ Alike
      (items.filter fun r => series r = x) (others.filter fun r => series r = x))
    (r : β) (hr : r ∈ items) (t : β) (ht : t ∈ others) (heq : series r = series t) :
    Alike r t := by
  have hlast : (others.filter fun r => series r = series t) = [t] := by
    refine filter_series_eq series others (series t) (some t) hothers fun u => ?_
    rw [Option.some.injEq]
    refine ⟨fun hu => List.inj_on_of_nodup_map hothers ht hu.1 hu.2.symm, ?_⟩
    rintro rfl
    exact ⟨ht, rfl⟩
  have halike := h (series t)
  rw [hlast] at halike
  obtain ⟨u, rest, hut, hrest, hfilter⟩ := List.forall₂_cons_right_iff.mp halike
  rw [List.forall₂_nil_right_iff.mp hrest] at hfilter
  have hmem : r ∈ items.filter fun r => series r = series t := by simp [hr, heq]
  rw [hfilter, List.mem_singleton] at hmem
  exact hmem ▸ hut

end

-- The increments are the same, if sums are exact.
def CounterReading.Resembles (r t : CounterReading α) : Prop :=
  r.series = t.series ∧ (Number.SumsExactly α → r = t)

-- A member may count twice.
def SetReading.Resembles (r t : SetReading) : Prop :=
  r.series = t.series ∧ t.cardinality ≤ r.cardinality ∧ r.cardinality ≤ 2 * t.cardinality

def TimerReading.Resembles (r t : TimerReading α) : Prop :=
  (r.series, r.samples) = (t.series, t.samples) ∧ (Number.SumsExactly α → r = t)

structure Snapshot.Resembles (split whole : Snapshot α) : Prop where
  once : split.Once
  counters : (split.counters.map CounterReading.series).Perm
    (whole.counters.map CounterReading.series)
  gauges : split.gauges.Perm whole.gauges
  sets : (split.sets.map SetReading.series).Perm (whole.sets.map SetReading.series)
  cardinalities : ∀ r ∈ split.sets, ∀ t ∈ whole.sets, r.series = t.series →
    t.cardinality ≤ r.cardinality ∧ r.cardinality ≤ 2 * t.cardinality
  timers : (split.timers.map fun t => (t.series, t.samples)).Perm
    (whole.timers.map fun t => (t.series, t.samples))
  sums : Number.SumsExactly α → split.counters.Perm whole.counters ∧ split.timers.Perm whole.timers
  events : split.events = whole.events

namespace Ledger.Reports

variable {first second whole : Ledger α} {expiry : ExpiryIntervals} {limit t₁ t₂ : Nat}
  {s₁ s₂ s : Snapshot α}

theorem resembles (h₁ : first.Reports expiry limit t₁ s₁)
    (h₂ : second.Reports expiry limit t₂ s₂) (h : whole.Reports expiry limit t₂ s)
    (hcut : ∀ k, Life.Cut (first.live expiry t₁ k) (second.live expiry t₂ k)
      (whole.live expiry t₂ k)) (hevents : s₁.events ++ s₂.events = s.events) :
    (s₁.merge s₂).Resembles s := by
  have honce := h₁.once.merge s₂
  have hcounters : ∀ x, List.Forall₂ CounterReading.Resembles
      ((s₁.merge s₂).counters.filter fun r => r.series = x)
      (s.counters.filter fun r => r.series = x) := by
    intro x
    rw [h₁.once.merge_counters, h₁.counters_of, h₂.counters_of, h.counters_of]
    exact (hcut _).counters x
  have hgauges : ∀ x, List.Forall₂ Eq
      ((s₁.merge s₂).gauges.filter fun r => r.series = x)
      (s.gauges.filter fun r => r.series = x) := by
    intro x
    rw [h₁.once.merge_gauges, h₁.gauges_of, h₂.gauges_of, h.gauges_of, List.forall₂_eq_eq_eq]
    exact (hcut _).gauges x
  have hsets : ∀ x, List.Forall₂ SetReading.Resembles
      ((s₁.merge s₂).sets.filter fun r => r.series = x)
      (s.sets.filter fun r => r.series = x) := by
    intro x
    rw [h₁.once.merge_sets, h₁.sets_of, h₂.sets_of, h.sets_of]
    exact (hcut _).sets x
  have htimers : ∀ x, List.Forall₂ TimerReading.Resembles
      ((s₁.merge s₂).timers.filter fun r => r.series = x)
      (s.timers.filter fun r => r.series = x) := by
    intro x
    rw [h₁.once.merge_timers, h₁.timers_of, h₂.timers_of, h.timers_of]
    exact (hcut _).timers x
  -- Lists that agree series by series are permutations, since each series stands once in both.
  refine ⟨honce, ?_, ?_, ?_, ?_, ?_, fun hexact => ⟨?_, ?_⟩, hevents⟩
  · exact perm_of_filters _ _ id (fun _ => rfl) honce.counters h.once.counters
      fun x => (hcounters x).imp fun r t hrt => hrt.1
  · have hperm := perm_of_filters _ id GaugeReading.series (fun _ => rfl) honce.gauges
      h.once.gauges hgauges
    rwa [List.map_id, List.map_id] at hperm
  · exact perm_of_filters _ _ id (fun _ => rfl) honce.sets h.once.sets
      fun x => (hsets x).imp fun r t hrt => hrt.1
  · intro r hr t ht heq
    exact (alike_of_filters SetReading.series _ h.once.sets hsets r hr t ht heq).2
  · exact perm_of_filters TimerReading.series _ Prod.fst (fun _ => rfl) honce.timers h.once.timers
      fun x => (htimers x).imp fun r t hrt => hrt.1
  · have hperm := perm_of_filters _ id CounterReading.series (fun _ => rfl) honce.counters
      h.once.counters fun x => (hcounters x).imp fun r t hrt => hrt.2 hexact
    rwa [List.map_id, List.map_id] at hperm
  · have hperm := perm_of_filters _ id TimerReading.series (fun _ => rfl) honce.timers
      h.once.timers fun x => (htimers x).imp fun r t hrt => hrt.2 hexact
    rwa [List.map_id, List.map_id] at hperm

end Ledger.Reports

omit [Number α] in
-- If no life is idle, the report in between cuts every life where it is.
theorem Ledger.live_cut (l : Ledger α) (before after : List (Metric α × Nat))
    (expiry : ExpiryIntervals) (t₁ t₂ : Nat) (hinterval : ∀ kind, expiry.get kind ≠ 0)
    (hfirst : ∀ k, (l.mergeAll before).live expiry t₁ k = (l.mergeAll before).lives k)
    (hsecond : ∀ k, (l.mergeAll (before ++ after)).live expiry t₂ k =
      (l.mergeAll (before ++ after)).lives k) (k : Key) :
    Life.Cut ((l.mergeAll before).live expiry t₁ k)
      ((((l.mergeAll before).close expiry t₁).mergeAll after).live expiry t₂ k)
      ((l.mergeAll (before ++ after)).live expiry t₂ k) := by
  have hclosed : ((l.mergeAll before).close expiry t₁).lives k =
      ((l.mergeAll before).lives k).map Life.close := by
    simp only [close, if_neg (hinterval k.kind), hfirst]
  have hcut : Life.Cut ((l.mergeAll before).lives k)
      ((((l.mergeAll before).close expiry t₁).mergeAll after).lives k)
      ((l.mergeAll (before ++ after)).lives k) := by
    rw [lives_mergeAll _ after, hclosed, mergeAll_append, lives_mergeAll _ after]
    exact Life.cut_close _ _
  -- The identity was last seen at the same time in both runs, so it is idle in both or in none.
  have hlate := hcut.filter (fun seen => !expiry.isIdle k.kind seen t₂) (hsecond k)
  rw [hfirst, hsecond, live, hlate]
  exact hcut

namespace Shard

variable {s : Shard α} {l : Ledger α} (before after : List (Metric α × Nat)) (t₁ t₂ : Nat)

theorem Follows.resembles (h : s.Follows l) (hinterval : ∀ kind, s.expiry.get kind ≠ 0)
    (hfirst : ∀ e ∈ (s.mergeAll before).entries, (s.mergeAll before).isIdle t₁ e = false)
    (hsecond : ∀ e ∈ (s.mergeAll (before ++ after)).entries,
      (s.mergeAll (before ++ after)).isIdle t₂ e = false) :
    (((s.mergeAll before).snapshot t₁).2.merge
        ((((s.mergeAll before).snapshot t₁).1.mergeAll after).snapshot t₂).2).Resembles
      ((s.mergeAll (before ++ after)).snapshot t₂).2 := by
  obtain ⟨hbefore, hexpiry₁, hlimit₁⟩ := h.mergeAll before
  obtain ⟨hafter, hexpiry₂, hlimit₂⟩ := (hbefore.close t₁).mergeAll after
  obtain ⟨hwhole, hexpiry, hlimit⟩ := h.mergeAll (before ++ after)
  replace hexpiry₂ := hexpiry₂.trans hexpiry₁
  replace hlimit₂ := hlimit₂.trans hlimit₁
  have hreports₁ := hbefore.reports t₁
  have hreports₂ := hafter.reports t₂
  have hreports := hwhole.reports t₂
  rw [hexpiry₁, hlimit₁] at hreports₁
  rw [hexpiry₁, hexpiry₂, hlimit₂] at hreports₂
  rw [hexpiry, hlimit] at hreports
  refine hreports₁.resembles hreports₂ hreports (fun k => ?_) ?_
  · refine l.live_cut before after s.expiry t₁ t₂ hinterval (fun k => ?_) (fun k => ?_) k
    · exact hexpiry₁ ▸ hbefore.live_of_busy t₁ hfirst k
    · exact hexpiry ▸ hwhole.live_of_busy t₂ hsecond k
  · rw [hreports₁.events, hreports₂.events, hreports.events, Ledger.events_mergeAll,
      Ledger.events_mergeAll, Ledger.events_mergeAll]
    simp [Ledger.close]

end Shard

theorem Shard.busy_of_le (c : Config.Aggregation) (history : List (Shard.Operation α))
    (ms : List (Metric α × Nat)) (now : Nat) (hnow : ∀ kind, now ≤ c.expiryInterval kind)
    (e : Entry α) : (((ofSettings c).run history).mergeAll ms).isIdle now e = false := by
  obtain ⟨l, hl, hexpiry⟩ := (follows_empty c).run history
  obtain ⟨-, hsame, -⟩ := hl.mergeAll ms
  have hle : now - e.lastSeen ≤ c.expiryInterval e.key.kind :=
    (Nat.sub_le _ _).trans (hnow e.key.kind)
  rw [isIdle, hsame, hexpiry, ExpiryIntervals.isIdle, Bool.and_eq_false_iff]
  exact .inr (decide_eq_false (Nat.not_lt.mpr (ExpiryIntervals.get_ofSettings c _ ▸ hle)))

theorem late_report_resembles (c : Config.Aggregation) (history : List (Shard.Operation α))
    (before after : List (Metric α × Nat)) (t₁ t₂ : Nat)
    (hinterval : ∀ kind, c.expiryInterval kind ≠ 0) :
    let s := (Shard.ofSettings c).run history
    let early := (s.mergeAll before).snapshot t₁
    let late := (early.1.mergeAll after).snapshot t₂
    let single := s.mergeAll (before ++ after)
    (∀ e ∈ (s.mergeAll before).entries, (s.mergeAll before).isIdle t₁ e = false) →
    (∀ e ∈ single.entries, single.isIdle t₂ e = false) →
    (early.2.merge late.2).Resembles (single.snapshot t₂).2 := by
  intro s early late single hfirst hsecond
  obtain ⟨l, hl, hexpiry⟩ := (Shard.follows_empty c).run history
  refine hl.resembles before after t₁ t₂ (fun kind => ?_) hfirst hsecond
  rw [hexpiry]
  exact (ExpiryIntervals.get_ofSettings c kind).symm ▸ hinterval kind

theorem late_hits_resemble :
    let c : Config.Aggregation := { workers := 1 }
    let hits : Metric ℚ := ⟨"hits", .counter 1, 1, .empty, none⟩
    let member : Metric ℚ := ⟨"users", .set "a", 1, .empty, none⟩
    let s := (Shard.ofSettings c).run [.merge hits 100, .snapshot 500]
    let before := [(hits, 1000), (member, 1100)]
    let after := [(member, 2000), (hits, 2500)]
    let early := (s.mergeAll before).snapshot 2000
    let late := (early.1.mergeAll after).snapshot 3000
    let single := s.mergeAll (before ++ after)
    (∀ kind, c.expiryInterval kind ≠ 0) ∧
    (∀ e ∈ (s.mergeAll before).entries, (s.mergeAll before).isIdle 2000 e = false) ∧
    (∀ e ∈ single.entries, single.isIdle 3000 e = false) ∧
    (early.2.merge late.2).Resembles (single.snapshot 3000).2 ∧
    (early.2.merge late.2).counters.Perm (single.snapshot 3000).2.counters := by
  intro c hits member s before after early late single
  have hsame : ∀ kind, c.expiryInterval kind = 300000 := fun kind => by cases kind <;> decide
  have hinterval : ∀ kind, c.expiryInterval kind ≠ 0 := fun kind => by rw [hsame]; omega
  have hearly : ∀ e ∈ (s.mergeAll before).entries, (s.mergeAll before).isIdle 2000 e = false :=
    fun e _ => Shard.busy_of_le c _ _ 2000 (fun kind => by rw [hsame]; omega) e
  have hlate : ∀ e ∈ single.entries, single.isIdle 3000 e = false :=
    fun e _ => Shard.busy_of_le c _ _ 3000 (fun kind => by rw [hsame]; omega) e
  have hresembles : (early.2.merge late.2).Resembles (single.snapshot 3000).2 :=
    late_report_resembles c _ before after 2000 3000 hinterval hearly hlate
  exact ⟨hinterval, hearly, hlate, hresembles,
    (hresembles.sums (ExactNumber.sumsExactly ℚ)).1⟩

end StatsDaemon
