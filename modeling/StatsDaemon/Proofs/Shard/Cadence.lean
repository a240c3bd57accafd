import Mathlib
import StatsDaemon.Proofs.Shard.Cursor
import StatsDaemon.Proofs.Shard.Routing

namespace StatsDaemon

namespace Config.Aggregation

theorem foldl_min_le (intervals : List Nat) (configured : Nat) :
    intervals.foldl min configured ≤ configured ∧
      ∀ interval ∈ intervals, intervals.foldl min configured ≤ interval := by
  induction intervals generalizing configured with
  | nil => simp
  | cons first rest ih =>
    obtain ⟨hle, hrest⟩ := ih (min configured first)
    refine ⟨hle.trans (min_le_left _ _), List.forall_mem_cons.mpr ⟨?_, hrest⟩⟩
    exact hle.trans (min_le_right _ _)

theorem one_le_checkInterval (c : Config.Aggregation) : 1 ≤ c.checkInterval :=
  Nat.le_max_right _ 1

theorem checkInterval_le (c : Config.Aggregation) (kind : Kind) (h : c.expiryInterval kind ≠ 0) :
    c.checkInterval ≤ c.expiryInterval kind := by
  have hmem : c.expiryInterval kind ∈ (kinds.map c.expiryInterval).filter (· ≠ 0) := by
    have hkind : kind ∈ kinds := by cases kind <;> simp [kinds]
    simpa [h] using List.mem_map_of_mem hkind
  have hsmallest := (foldl_min_le _ (c.expiryCheck.getD c.flushInterval)).2 _ hmem
  exact Nat.max_le.mpr ⟨hsmallest, Nat.one_le_iff_ne_zero.mpr h⟩

end Config.Aggregation

namespace Shard

variable {α : Type} [Number α]

-- What happens to a shard. A value may come under any identity, also one of another kind.
inductive Action (α : Type) where
  | merge (m : KeyedMetric α)
  | addEvent (e : Event)
  | expire (chunk : Nat)
  | snapshot

def act (s : Shard α) (now : Nat) : Action α → Shard α
  | .merge m =>
    match s.merge m now with
    | .ok merged => merged
    | .error _ => s
  | .addEvent e => (s.addEvent e).1
  | .expire chunk => (s.expireChunk now chunk).1
  | .snapshot => (s.snapshot now).1

def actAll (s : Shard α) (run : List (Nat × Action α)) : Shard α :=
  run.foldl (fun s (now, a) => s.act now a) s

omit [Number α] in
def keys (s : Shard α) : List Key :=
  s.entries.map Entry.key

omit [Number α] in
def Action.lastCheck (last : Nat) : Nat × Action α → Nat
  | (now, .expire _) => now
  | _ => last

omit [Number α] in
def lastCheck (start : Nat) (run : List (Nat × Action α)) : Nat :=
  run.foldl Action.lastCheck start

omit [Number α] in
-- Nothing happens later than a period after the last check, so that checks come in time.
def OnCadence (period : Nat) : Nat → List (Nat × Action α) → Prop
  | _, [] => True
  | last, first :: rest =>
    first.1 ≤ last + period ∧ OnCadence period (Action.lastCheck last first) rest

omit [Number α] in
theorem OnCadence.le {period start : Nat} {run : List (Nat × Action α)} {next : Nat × Action α}
    (h : OnCadence period start (run ++ [next])) : next.1 ≤ lastCheck start run + period := by
  induction run generalizing start with
  | nil => exact h.1
  | cons first rest ih => exact ih h.2

end Shard

variable {α : Type} [Number α]

structure Snapshot.Lists (p : Snapshot α) (e : Entry α) : Prop where
  counter : ∀ r, e.counterReading? = some r → r ∈ p.counters
  gauge : ∀ r, e.gaugeReading? = some r → r ∈ p.gauges
  set : ∀ r, e.setReading? = some r → r ∈ p.sets
  timer : ∀ r, e.timerReading? = some r → r ∈ p.timers

namespace Shard

-- At this instant the identity is not removed for being idle: not by a step of a scan, and not by a
-- report, which lists what there is of it. With an expiry interval of zero it leaves with the
-- report, and is not counted among those that were idle.
structure Spared (s : Shard α) (k : Key) (now : Nat) : Prop where
  scanned : ∀ chunk, k ∈ s.keys → k ∈ (s.expireChunk now chunk).1.keys
  kept : s.expiry.get k.kind ≠ 0 → k ∈ s.keys → k ∈ (s.snapshot now).1.keys
  listed : ∀ e ∈ s.entries, e.key = k → (s.snapshot now).2.Lists e
  uncounted : (s.snapshot now).2.expired ≤ (s.keys.filter (· ≠ k)).length

theorem spared_of_busy (s : Shard α) (k : Key) (now : Nat)
    (h : ∀ e ∈ s.entries, e.key = k → s.isIdle now e = false) : s.Spared k now where
  scanned chunk hk := by
    obtain ⟨e, he, rfl⟩ := List.mem_map.mp hk
    obtain ⟨gone, hscanned, -⟩ := expireChunk_scanned s now chunk
    rcases List.mem_append.mp (hscanned.entries.mem_iff.mpr he) with hgone | hstays
    · exact absurd (hscanned.idle e hgone) (by simp [h e he rfl])
    · exact List.mem_map_of_mem hstays
  kept hinterval hk := by
    obtain ⟨e, he, rfl⟩ := List.mem_map.mp hk
    have hlive : e ∈ s.entries.filter fun e => !s.isIdle now e := by simp [he, h e he rfl]
    refine List.mem_map.mpr ⟨e.reset, List.mem_map_of_mem (List.mem_filter.mpr ⟨hlive, ?_⟩),
      reset_key e⟩
    simpa using hinterval
  listed e he hk := by
    have hlive : e ∈ s.entries.filter fun e => !s.isIdle now e := by simp [he, h e he hk]
    exact
      { counter := fun r hr => List.mem_filterMap.mpr ⟨e, hlive, hr⟩
        gauge := fun r hr => List.mem_filterMap.mpr ⟨e, hlive, hr⟩
        set := fun r hr => List.mem_filterMap.mpr ⟨e, hlive, hr⟩
        timer := fun r hr => List.mem_filterMap.mpr ⟨e, hlive, hr⟩ }
  uncounted := by
    rw [snapshot_expired, keys, List.filter_map, List.length_map, ← List.countP_eq_length_filter,
      ← List.countP_eq_length_filter]
    refine List.countP_mono_left fun e he hidle => ?_
    have hne : e.key ≠ k := fun hk => by simp [h e he hk] at hidle
    simpa using hne

omit [Number α] in
structure Built (s : Shard α) (c : Config.Aggregation) : Prop where
  expiry : s.expiry = .ofSettings c
  distinct : s.keys.Nodup

omit [Number α] in
-- The entry of the identity was seen at the instant or later, and it is there if it outlives
-- reports.
structure SeenSince (s : Shard α) (c : Config.Aggregation) (k : Key) (since : Nat) : Prop
    extends s.Built c where
  seen : ∀ e ∈ s.entries, e.key = k → since ≤ e.lastSeen
  present : c.expiryInterval k.kind ≠ 0 → k ∈ s.keys

variable {s merged : Shard α} {c : Config.Aggregation} {k : Key} {since now : Nat}

omit [Number α] in
theorem SeenSince.busy (h : s.SeenSince c k since) (hnow : now ≤ since + c.checkInterval) :
    ∀ e ∈ s.entries, e.key = k → s.isIdle now e = false := by
  rintro e he rfl
  rw [isIdle, ExpiryIntervals.isIdle_eq_false_iff, h.expiry, ExpiryIntervals.get_ofSettings]
  intro hinterval
  have hseen := h.seen e he rfl
  have hle := c.checkInterval_le e.key.kind hinterval
  omega

theorem SeenSince.spared (h : s.SeenSince c k since) (hnow : now ≤ since + c.checkInterval) :
    s.Spared k now :=
  spared_of_busy s k now (h.busy hnow)

section Merge

variable {m : KeyedMetric α}

theorem keys_of_merge (h : s.merge m now = .ok merged) :
    m.key ∈ merged.keys ∧ s.keys ⊆ merged.keys := by
  obtain ⟨entries, hentries, rfl⟩ := merge_eq_ok s merged m now h
  rcases mergeEntries_cases m now s.entries entries hentries with
    ⟨before, e, after, a, hs, -, hkey, -, rfl⟩ | ⟨-, rfl⟩
  · simp [keys, hs, hkey]
  · simp [keys]

theorem mem_of_merge (h : s.merge m now = .ok merged) :
    ∀ x ∈ merged.entries, x ∈ s.entries ∨ x.lastSeen = now := by
  obtain ⟨entries, hentries, rfl⟩ := merge_eq_ok s merged m now h
  intro x hx
  rcases mergeEntries_cases m now s.entries entries hentries with
    ⟨before, e, after, a, hs, -, -, -, rfl⟩ | ⟨-, rfl⟩
  · rw [hs, List.mem_append, List.mem_cons]
    rcases List.mem_append.mp hx with hbefore | hx
    · exact .inl (.inl hbefore)
    · rcases List.mem_cons.mp hx with rfl | hafter
      · exact .inr rfl
      · exact .inl (.inr (.inr hafter))
  · rcases List.mem_append.mp hx with hold | hnew
    · exact .inl hold
    · exact .inr (List.mem_singleton.mp hnew ▸ rfl)

theorem Built.merge (h : s.Built c) (hmerge : s.merge m now = .ok merged) : merged.Built c := by
  obtain ⟨entries, hentries, rfl⟩ := merge_eq_ok s merged m now hmerge
  exact ⟨h.expiry, mergeEntries_distinct m now s.entries entries h.distinct hentries⟩

theorem Built.seenSince (h : s.Built c) (hmerge : s.merge m now = .ok merged) :
    merged.SeenSince c m.key now where
  toBuilt := h.merge hmerge
  present _ := (keys_of_merge hmerge).1
  seen x hx hkey := by
    have hdistinct := (h.merge hmerge).distinct
    obtain ⟨entries, hentries, rfl⟩ := merge_eq_ok s merged m now hmerge
    rcases mergeEntries_cases m now s.entries entries hentries with
      ⟨before, e, after, a, -, -, he, -, rfl⟩ | ⟨hnew, rfl⟩
    · have hchanged : ({ e with aggregate := a, lastSeen := now } : Entry α) ∈
          before ++ { e with aggregate := a, lastSeen := now } :: after := by simp
      rw [List.inj_on_of_nodup_map hdistinct hx hchanged (hkey.trans he.symm)]
    · rcases List.mem_append.mp hx with hold | hadded
      · exact absurd hkey (hnew x hold)
      · rw [List.mem_singleton.mp hadded]

end Merge

theorem Built.act (h : s.Built c) (now : Nat) (a : Action α) : (s.act now a).Built c := by
  cases a with
  | merge m =>
    rw [Shard.act]
    split
    · rename_i hmerge
      exact h.merge hmerge
    · exact h
  | addEvent e =>
    rw [Shard.act, addEvent]
    split <;> exact ⟨h.expiry, h.distinct⟩
  | expire chunk =>
    obtain ⟨gone, hscanned, -⟩ := expireChunk_scanned s now chunk
    have hdistinct := (hscanned.entries.map Entry.key).nodup_iff.mpr h.distinct
    rw [List.map_append] at hdistinct
    exact ⟨hscanned.expiry.trans h.expiry, (List.nodup_append.mp hdistinct).2.1⟩
  | snapshot => exact ⟨h.expiry, snapshot_distinct s now h.distinct⟩

theorem Built.actAll (h : s.Built c) (run : List (Nat × Action α)) : (s.actAll run).Built c := by
  induction run generalizing s with
  | nil => exact h
  | cons first rest ih => exact ih (h.act first.1 first.2)

-- Whatever happens within the time between two checks, the identity stays as recently seen.
theorem SeenSince.act (h : s.SeenSince c k since) (hsince : since ≤ now)
    (hnow : now ≤ since + c.checkInterval) (a : Action α) : (s.act now a).SeenSince c k since := by
  have hbuilt := h.toBuilt.act now a
  have hspared := h.spared hnow
  cases a with
  | merge m =>
    rw [Shard.act] at hbuilt ⊢
    split
    · rename_i merged hmerge
      refine ⟨h.merge hmerge, fun e he hkey => ?_, fun hk => ?_⟩
      · rcases mem_of_merge hmerge e he with hold | hnew
        · exact h.seen e hold hkey
        · exact hnew ▸ hsince
      · exact (keys_of_merge hmerge).2 (h.present hk)
    · exact h
  | addEvent e =>
    rw [Shard.act, addEvent]
    split <;> exact ⟨⟨h.expiry, h.distinct⟩, h.seen, h.present⟩
  | expire chunk =>
    obtain ⟨gone, hscanned, -⟩ := expireChunk_scanned s now chunk
    refine ⟨hbuilt, fun e he hkey => ?_, fun hk => hspared.scanned chunk (h.present hk)⟩
    exact h.seen e (hscanned.entries.subset (List.mem_append_right _ he)) hkey
  | snapshot =>
    refine ⟨hbuilt, fun x hx hkey => ?_, fun hk => hspared.kept ?_ (h.present hk)⟩
    · obtain ⟨e, he, rfl⟩ := mem_snapshot s now x hx
      rw [reset_lastSeen]
      exact h.seen e he ((reset_key e).symm.trans hkey)
    · rwa [h.expiry, ExpiryIntervals.get_ofSettings]

theorem SeenSince.actAll (h : s.SeenSince c k since) (run : List (Nat × Action α))
    (hrun : ∀ x ∈ run, since ≤ x.1 ∧ x.1 ≤ since + c.checkInterval) :
    (s.actAll run).SeenSince c k since := by
  induction run generalizing s with
  | nil => exact h
  | cons first rest ih =>
    obtain ⟨⟨hsince, hnow⟩, hrest⟩ := List.forall_mem_cons.mp hrun
    exact ih (h.act hsince hnow first.2) hrest

end Shard

-- An identity with a value is spared until the time between two checks has passed. So if checks
-- come in time, they and the reports between them spare what has a value since the last check.
theorem recent_spared (c : Config.Aggregation) :
    1 ≤ c.checkInterval ∧
    (∀ kind, c.expiryInterval kind ≠ 0 → c.checkInterval ≤ c.expiryInterval kind) ∧
    ∀ (before after : List (Nat × Shard.Action α)) (t now : Nat) (m : KeyedMetric α)
      (merged : Shard α),
      ((Shard.ofSettings c).actAll before).merge m t = .ok merged →
      (t :: (after.map Prod.fst ++ [now])).Pairwise (· ≤ ·) →
      let run := before ++ (t, .merge m) :: after
      let s := (Shard.ofSettings c).actAll run
      (now ≤ t + c.checkInterval →
        s.Spared m.key now ∧ (c.expiryInterval m.key.kind ≠ 0 → m.key ∈ s.keys)) ∧
      ∀ start a, Shard.OnCadence c.checkInterval start (run ++ [(now, a)]) →
        Shard.lastCheck start run ≤ t → s.Spared m.key now := by
  refine ⟨c.one_le_checkInterval, c.checkInterval_le, ?_⟩
  intro before after t now m merged hmerge hclock run s
  have hs : s = merged.actAll after := by
    have hact : ((Shard.ofSettings c).actAll before).act t (.merge m) = merged := by
      rw [Shard.act, hmerge]
    rw [← hact]
    exact List.foldl_append
  have hseen (hnow : now ≤ t + c.checkInterval) : s.SeenSince c m.key t := by
    have hstart : (Shard.ofSettings c : Shard α).Built c := ⟨rfl, List.nodup_nil⟩
    have hbuilt := hstart.actAll before
    obtain ⟨hsince, htimes⟩ := List.pairwise_cons.mp hclock
    have hlast := (List.pairwise_append.mp htimes).2.2
    rw [hs]
    refine (hbuilt.seenSince hmerge).actAll after fun x hx => ?_
    have hx := List.mem_map_of_mem (f := Prod.fst) hx
    exact ⟨hsince x.1 (List.mem_append_left _ hx),
      (hlast x.1 hx now (List.mem_singleton_self now)).trans hnow⟩
  refine ⟨fun hnow => ⟨(hseen hnow).spared hnow, (hseen hnow).present⟩, ?_⟩
  intro start a hcadence hcheck
  have hnow : now ≤ t + c.checkInterval :=
    hcadence.le.trans (Nat.add_le_add_right hcheck c.checkInterval)
  exact (hseen hnow).spared hnow

-- A gauge that is idle at the check of every two seconds but for the value that it got since.
theorem refreshed_gauge_spared :
    let c : Config.Aggregation := { workers := 1, flushInterval := 10000, expiry := 2 }
    let load (x : Binary64) : KeyedMetric Binary64 := Metric.keyed ⟨"load", .gauge x, 1, .empty, none⟩
    let before : List (Nat × Shard.Action Binary64) := [(0, .merge (load 1)), (2000, .expire 10)]
    let run := before ++ (2500, .merge (load 2)) :: [(3000, .addEvent { title := "up", text := "" })]
    let s := (Shard.ofSettings c).actAll run
    c.checkInterval = 2000 ∧ Shard.lastCheck 0 run = 2000 ∧
    Shard.OnCadence c.checkInterval 0 (run ++ [(4000, .expire 10)]) ∧
    s.Spared (load 2).key 4000 ∧ (load 2).key ∈ s.keys := by
  intro c load before run s
  have hcadence : Shard.OnCadence c.checkInterval 0 (run ++ [(4000, .expire 10)]) := by
    refine ⟨?_, ?_, ?_, ?_, ?_, trivial⟩ <;> decide
  have hspared := (recent_spared c).2.2 before [(3000, .addEvent { title := "up", text := "" })] 2500
    4000 (load 2) ⟨[⟨(load 2).key, .gauge 2, 2500⟩], [], 1024, .ofSettings c, 0⟩
    (by decide +kernel) (by decide)
  exact ⟨by decide, by decide, hcadence, hspared.2 0 _ hcadence (by decide),
    (hspared.1 (by decide)).2 (by decide)⟩

end StatsDaemon
