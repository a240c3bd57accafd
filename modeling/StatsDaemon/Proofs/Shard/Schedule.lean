import Mathlib
import StatsDaemon.Proofs.Shard.Run

namespace StatsDaemon

variable {α : Type} [Number α]

omit [Number α] in
def Shard.Operation.instant? : Shard.Operation α → Option Nat
  | .merge _ now => some now
  | .addEvent _ => none
  | .expire now _ => some now
  | .snapshot now => some now

namespace Shard

open Operation

omit [Number α] in
def FlushedEvery (period : Nat) : Nat → List (Operation α) → Prop
  | _, [] => True
  | due, .snapshot now :: rest => now = due ∧ FlushedEvery period (due + period) rest
  | due, o :: rest => (∀ now ∈ o.instant?, now ≤ due) ∧ FlushedEvery period due rest

-- A scan begins at the due time, and then one after every period. Once it has begun it goes on
-- until it is finished; in between there may be other operations.
def ScannedEvery (period : Nat) : Nat → Shard α → Bool → List (Operation α) → Prop
  | _, _, _, [] => True
  | due, s, scanning, .expire now chunk :: rest =>
    (if scanning then now ≤ due else now = due) ∧
      ScannedEvery period (if scanning then due else due + period) (s.expireChunk now chunk).1
        (!(s.expireChunk now chunk).2.finished) rest
  | due, s, scanning, o :: rest =>
    (∀ now ∈ o.instant?, now ≤ due) ∧ ScannedEvery period due (s.perform o).1 scanning rest

-- A run with the settings: its clock does not go back, and flushes and scans come when they are
-- due.
structure OnSchedule (c : Config.Aggregation) (start : Nat) (run : List (Operation α)) : Prop where
  clock : (start :: run.filterMap instant?).Pairwise (· ≤ ·)
  flushed : FlushedEvery c.flushInterval (start + c.flushInterval) run
  scanned : ScannedEvery c.checkInterval (start + c.checkInterval) (ofSettings c) false run

omit [Number α] in
instance decidableFlushedEvery (period : Nat) :
    (due : Nat) → (run : List (Operation α)) → Decidable (FlushedEvery period due run)
  | _, [] => .isTrue trivial
  | due, o :: rest =>
    let _ := decidableFlushedEvery period due rest
    let _ := decidableFlushedEvery period (due + period) rest
    match o with
    | .snapshot now => inferInstanceAs (Decidable (now = due ∧ _))
    | .merge _ now => inferInstanceAs (Decidable ((∀ t ∈ some now, t ≤ due) ∧ _))
    | .addEvent _ => inferInstanceAs (Decidable ((∀ t ∈ none, t ≤ due) ∧ _))
    | .expire now _ => inferInstanceAs (Decidable ((∀ t ∈ some now, t ≤ due) ∧ _))

instance decidableScannedEvery (period : Nat) :
    (due : Nat) → (s : Shard α) → (scanning : Bool) → (run : List (Operation α)) →
      Decidable (ScannedEvery period due s scanning run)
  | _, _, _, [] => .isTrue trivial
  | due, s, scanning, o :: rest =>
    match o with
    | .expire now chunk =>
      let _ := decidableScannedEvery period (if scanning then due else due + period)
        (s.expireChunk now chunk).1 (!(s.expireChunk now chunk).2.finished) rest
      inferInstanceAs (Decidable ((if scanning then now ≤ due else now = due) ∧ _))
    | .merge m now =>
      let _ := decidableScannedEvery period due (s.perform (.merge m now)).1 scanning rest
      inferInstanceAs (Decidable ((∀ t ∈ some now, t ≤ due) ∧ _))
    | .addEvent e =>
      let _ := decidableScannedEvery period due (s.perform (.addEvent e)).1 scanning rest
      inferInstanceAs (Decidable ((∀ t ∈ none, t ≤ due) ∧ _))
    | .snapshot now =>
      let _ := decidableScannedEvery period due (s.perform (.snapshot now)).1 scanning rest
      inferInstanceAs (Decidable ((∀ t ∈ some now, t ≤ due) ∧ _))

omit [Number α] in
-- What is merged before each snapshot and after the one before it.
def windows : List (Metric α) → List (Operation α) → List (List (Metric α))
  | _, [] => []
  | pending, .merge m _ :: rest => windows (pending ++ [m]) rest
  | pending, .snapshot _ :: rest => pending :: windows [] rest
  | pending, _ :: rest => windows pending rest

omit [Number α] in
def openWindow : List (Metric α) → List (Operation α) → List (Metric α)
  | pending, [] => pending
  | pending, .merge m _ :: rest => openWindow (pending ++ [m]) rest
  | _, .snapshot _ :: rest => openWindow [] rest
  | pending, _ :: rest => openWindow pending rest

omit [Number α] in
theorem windows_partition (pending : List (Metric α)) (run : List (Operation α)) :
    (windows pending run).flatten ++ openWindow pending run =
      pending ++ run.filterMap Operation.metric? := by
  induction run generalizing pending with
  | nil => simp [windows, openWindow]
  | cons o rest ih =>
    cases o with
    | merge m now =>
      rw [windows, openWindow, ih, List.append_assoc]
      rfl
    | addEvent e => exact ih pending
    | expire now chunk => exact ih pending
    | snapshot now =>
      rw [windows, openWindow, List.flatten_cons, List.append_assoc, ih]
      rfl

end Shard

omit [Number α] in
def Key.own (k : Key) (window : List (Metric α)) : List (Metric α) :=
  window.filter fun m => m.key = k

-- What a report says of its window: it lists the identities that were there, and its figures are
-- made of nothing else. A sum starts with its first number or with zero.
structure Snapshot.Tells (kept : Kind → Prop) (window : List (Metric α)) (s : Snapshot α) :
    Prop where
  once : s.Once
  counted : kept .counter → ∀ x : Series, (x.key .counter).own window ≠ [] →
    ∃ r ∈ s.counters, r.series = x
  counters : kept .counter → ∀ r ∈ s.counters, ∃ first, r.delta =
    Life.gather first (((r.series.key .counter).own window).filterMap Metric.increment?)
  sets : kept .set → ∀ r, r ∈ s.sets ↔ (r.series.key .set).own window ≠ [] ∧
    r.cardinality = (((r.series.key .set).own window).filterMap Metric.member?).toFinset.card
  timed : kept .timer → ∀ x : Series, (x.key .timer).own window ≠ [] ↔
    ∃ r ∈ s.timers, r.series = x
  timers : kept .timer → ∀ r ∈ s.timers,
    r.samples = ((r.series.key .timer).own window).filterMap Metric.sample? ∧
    ∃ first, r.sampledCount =
      Life.gather first (((r.series.key .timer).own window).filterMap Metric.weight?)

omit [Number α] in
def Life.unreported (life : Option (Life α)) : List (Metric α) :=
  (life.map window).getD []

omit [Number α] in
theorem Life.grow_eq_some (life : Option (Life α)) (m : Metric α) (now : Nat) :
    ∃ next, grow life (m, now) = some next ∧ next.window = unreported life ++ [m] ∧
      next.lastSeen = now := by
  cases life with
  | none => exact ⟨_, rfl, rfl, rfl⟩
  | some life => exact ⟨_, rfl, rfl, rfl⟩

omit [Number α] in
-- What is not reported of an identity is what was merged since the last snapshot. If there is
-- anything, it was seen since then.
structure Ledger.Tracks (l : Ledger α) (k : Key) (since : Nat) (pending : List (Metric α)) :
    Prop where
  unreported : Life.unreported (l.lives k) = k.own pending
  seen : ∀ life, l.lives k = some life → life.window ≠ [] → since ≤ life.lastSeen

def ExpiryIntervals.Outlasts (expiry : ExpiryIntervals) (period : Nat) (kind : Kind) : Prop :=
  expiry.get kind = 0 ∨ period ≤ expiry.get kind

namespace Ledger.Tracks

variable {l : Ledger α} {k : Key} {since period now : Nat} {pending : List (Metric α)}
  {expiry : ExpiryIntervals}

omit [Number α] in
theorem window (h : l.Tracks k since pending) (life : Life α) (hl : l.lives k = some life) :
    life.window = k.own pending := by
  rw [← h.unreported, hl]
  rfl

omit [Number α] in
theorem merge (h : l.Tracks k since pending) (m : Metric α) (hnow : since ≤ now) :
    (l.merge m now).Tracks k since (pending ++ [m]) := by
  by_cases hk : k = m.key
  · subst hk
    have hown : m.key.own (pending ++ [m]) = m.key.own pending ++ [m] := by
      simp [Key.own, List.filter_append]
    obtain ⟨next, hnext, hwindow, hseen⟩ := Life.grow_eq_some (l.lives m.key) m now
    have hlife := (l.lives_merge_self m now).trans hnext
    refine ⟨?_, fun life hl _ => ?_⟩
    · rw [hlife, hown, ← h.unreported]
      exact hwindow
    · obtain rfl := Option.some.inj (hlife.symm.trans hl)
      exact hseen ▸ hnow
  · have hown : k.own (pending ++ [m]) = k.own pending := by
      simp [Key.own, List.filter_append, Ne.symm hk]
    have hlife := Shard.lives_merge_of_ne l m now k hk
    exact ⟨by rw [hlife, hown, h.unreported], hlife ▸ h.seen⟩

omit [Number α] in
-- An identity is not idle as long as it has anything to report.
theorem busy (h : l.Tracks k since pending) (hkept : expiry.Outlasts period k.kind)
    (hnow : now ≤ since + period) (hpending : k.own pending ≠ []) :
    ∃ life, l.live expiry now k = some life := by
  cases hl : l.lives k with
  | none => exact absurd (h.unreported.symm.trans (congrArg Life.unreported hl)) hpending
  | some life =>
    have hseen : since ≤ life.lastSeen := h.seen life hl (h.window life hl ▸ hpending)
    have hbusy : expiry.isIdle k.kind life.lastSeen now = false := by
      rw [ExpiryIntervals.isIdle, Bool.and_eq_false_iff]
      rcases hkept with hzero | hlong
      · exact .inl (by simp [hzero])
      · exact .inr (decide_eq_false (by omega))
    exact ⟨life, by rw [live, hl, Option.filter_some, hbusy]; rfl⟩

omit [Number α] in
theorem forget (h : l.Tracks k since pending) (hkept : expiry.Outlasts period k.kind)
    (hnow : now ≤ since + period) (gone : List Key) (hidle : ∀ k ∈ gone, l.Idle expiry now k) :
    (l.forget gone).Tracks k since pending := by
  by_cases hk : k ∈ gone
  · have hlife : (l.forget gone).lives k = none := if_pos hk
    -- What leaves is idle, and what is idle has nothing to report.
    have hnone : k.own pending = [] := by
      by_contra hpending
      obtain ⟨life, hl, hi⟩ := hidle k hk
      obtain ⟨other, hlive⟩ := h.busy hkept hnow hpending
      rw [live, hl, Option.filter_some, hi] at hlive
      cases hlive
    refine ⟨by rw [hlife, hnone]; rfl, fun life hl => ?_⟩
    rw [hlife] at hl
    cases hl
  · have hlife : (l.forget gone).lives k = l.lives k := if_neg hk
    exact ⟨hlife ▸ h.unreported, hlife ▸ h.seen⟩

omit [Number α] in
theorem close (l : Ledger α) (k : Key) (since now : Nat) (expiry : ExpiryIntervals) :
    (l.close expiry now).Tracks k since [] := by
  have hempty : ∀ life, (l.close expiry now).lives k = some life → life.window = [] := by
    intro life hl
    simp only [Ledger.close, Option.ite_none_left_eq_some, Option.map_eq_some_iff] at hl
    obtain ⟨-, old, -, rfl⟩ := hl
    rfl
  refine ⟨?_, fun life hl hne => absurd (hempty life hl) hne⟩
  cases hl : (l.close expiry now).lives k with
  | none => rfl
  | some life => exact hempty life hl

omit [Number α] in
theorem live_window (h : l.Tracks k since pending) (life : Life α)
    (hlive : l.live expiry now k = some life) : life.window = k.own pending :=
  h.window life (Option.filter_eq_some_iff.mp hlive).1

end Ledger.Tracks

theorem Ledger.Reports.tells {l : Ledger α} {expiry : ExpiryIntervals}
    {limit since period now : Nat} {s : Snapshot α} {pending : List (Metric α)}
    (h : l.Reports expiry limit now s)
    (htracks : ∀ k : Key, expiry.Outlasts period k.kind → l.Tracks k since pending)
    (hnow : now ≤ since + period) : s.Tells (expiry.Outlasts period) pending where
  once := h.once
  counted hkept x hx := by
    obtain ⟨life, hlive⟩ := (htracks (x.key .counter) hkept).busy hkept hnow hx
    exact ⟨⟨x, life.delta, life.total⟩, (h.counters _).mpr ⟨life, hlive, rfl, rfl⟩, rfl⟩
  counters hkept r hr := by
    obtain ⟨life, hlive, hdelta, -⟩ := (h.counters r).mp hr
    rw [← (htracks _ hkept).live_window life hlive]
    exact ⟨_, hdelta⟩
  sets hkept r := by
    have htracks := htracks (r.series.key .set) hkept
    rw [h.sets]
    constructor
    · rintro ⟨life, hlive, hne, hcard⟩
      rw [← htracks.live_window life hlive]
      exact ⟨hne, hcard⟩
    · rintro ⟨hne, hcard⟩
      obtain ⟨life, hlive⟩ := htracks.busy hkept hnow hne
      rw [← htracks.live_window life hlive] at hne hcard
      exact ⟨life, hlive, hne, hcard⟩
  timed hkept x := by
    have htracks := htracks (x.key .timer) hkept
    constructor
    · intro hne
      obtain ⟨life, hlive⟩ := htracks.busy hkept hnow hne
      rw [← htracks.live_window life hlive] at hne
      exact ⟨⟨x, life.samples, life.weight⟩, (h.timers _).mpr ⟨life, hlive, hne, rfl, rfl⟩, rfl⟩
    · rintro ⟨r, hr, rfl⟩
      obtain ⟨life, hlive, hne, -⟩ := (h.timers r).mp hr
      exact htracks.live_window life hlive ▸ hne
  timers hkept r hr := by
    obtain ⟨life, hlive, -, hsamples, hcount⟩ := (h.timers r).mp hr
    rw [← (htracks _ hkept).live_window life hlive]
    exact ⟨hsamples, _, hcount⟩

namespace Shard

open Operation

-- Every report of a run on schedule tells what was merged in its window.
theorem Follows.tells {s : Shard α} {l : Ledger α} (h : s.Follows l) (period since : Nat)
    (pending : List (Metric α))
    (htracks : ∀ k : Key, s.expiry.Outlasts period k.kind → l.Tracks k since pending)
    (run : List (Operation α)) (hclock : (since :: run.filterMap instant?).Pairwise (· ≤ ·))
    (hflushed : FlushedEvery period (since + period) run) :
    List.Forall₂ (Snapshot.Tells (s.expiry.Outlasts period)) (windows pending run)
      (s.reports run) := by
  induction run generalizing s l since pending with
  | nil => exact .nil
  | cons o rest ih =>
    obtain ⟨next, hstep, hnext, hexpiry, -⟩ := h.perform o
    rw [Shard.reports]
    rw [← hexpiry] at htracks hstep ⊢
    generalize (s.perform o).2 = outcome at hstep ⊢
    cases hstep with
    | merge m now =>
      obtain ⟨hsince, hrest⟩ := List.pairwise_cons.mp hclock
      have hnow : since ≤ now := hsince now List.mem_cons_self
      refine ih hnext since (pending ++ [m]) (fun k hk => (htracks k hk).merge m hnow) ?_ hflushed.2
      exact hclock.sublist (.cons_cons since (List.sublist_cons_self _ _))
    | addEvent e =>
      have hsame : ∀ k : Key, l.Tracks k since pending → (l.addEvent e).Tracks k since pending :=
        fun k hk => ⟨hk.unreported, hk.seen⟩
      exact ih hnext since pending (fun k hk => hsame k (htracks k hk)) hclock hflushed.2
    | expire now chunk gone finished hdistinct hidle hlength =>
      have hnow : now ≤ since + period := hflushed.1 now rfl
      refine ih hnext since pending (fun k hk => (htracks k hk).forget hk hnow gone hidle) ?_
        hflushed.2
      exact hclock.sublist (.cons_cons since (List.sublist_cons_self _ _))
    | snapshot now reported hreports =>
      -- The next window begins with nothing unreported, whoever was there before.
      obtain ⟨hnow, hrest⟩ := hflushed
      refine .cons (hreports.tells htracks hnow.le) ?_
      rw [← hnow] at hrest
      exact ih hnext now [] (fun k _ => .close l k now now _) (List.pairwise_cons.mp hclock).2 hrest

end Shard

theorem windows_reported (c : Config.Aggregation) (start : Nat) (run : List (Shard.Operation α))
    (h : Shard.OnSchedule c start run) :
    (Shard.windows [] run).flatten ++ Shard.openWindow [] run =
      run.filterMap Shard.Operation.metric? ∧
    List.Forall₂ (Snapshot.Tells fun kind =>
        c.expiryInterval kind = 0 ∨ c.flushInterval ≤ c.expiryInterval kind)
      (Shard.windows [] run) ((Shard.ofSettings c).reports run) := by
  refine ⟨Shard.windows_partition [] run, ?_⟩
  have htracks : ∀ k : Key, (Ledger.empty : Ledger α).Tracks k start [] := fun k =>
    { unreported := rfl
      seen := fun life hl => nomatch hl }
  have htells := (Shard.follows_empty c).tells c.flushInterval start [] (fun k _ => htracks k)
    run h.clock h.flushed
  have hkinds : (ExpiryIntervals.ofSettings c).Outlasts c.flushInterval =
      fun kind => c.expiryInterval kind = 0 ∨ c.flushInterval ≤ c.expiryInterval kind := by
    funext kind
    rw [ExpiryIntervals.Outlasts, ExpiryIntervals.get_ofSettings]
  exact hkinds ▸ htells

theorem hits_windows_reported :
    let c : Config.Aggregation := { workers := 1 }
    let hits (x : ℚ) : Metric ℚ := ⟨"hits", .counter x, 1, .empty, none⟩
    let run : List (Shard.Operation ℚ) :=
      [.merge (hits 1) 100, .snapshot 1000, .expire 1000 1000, .merge (hits 2) 1500, .snapshot 2000]
    Shard.OnSchedule c 0 run ∧
    (Shard.windows [] run).flatten ++ Shard.openWindow [] run =
      run.filterMap Shard.Operation.metric? ∧
    List.Forall₂ (Snapshot.Tells fun kind =>
        c.expiryInterval kind = 0 ∨ c.flushInterval ≤ c.expiryInterval kind)
      (Shard.windows [] run) ((Shard.ofSettings c).reports run) := by
  intro c hits run
  have hschedule : Shard.OnSchedule c 0 run :=
    ⟨by decide +kernel, by decide +kernel, by decide +kernel⟩
  exact ⟨hschedule, windows_reported c 0 run hschedule⟩

-- Settings may be valid though their windows are longer than an expiry interval. What is merged at
-- the beginning of such a window is gone at its end.
theorem window_lost :
    ¬ ∀ (c : Config.Aggregation) (start : Nat) (run : List (Shard.Operation ℚ)),
      c.validate = .ok () → Shard.OnSchedule c start run →
      List.Forall₂ (Snapshot.Tells fun _ => True) (Shard.windows [] run)
        ((Shard.ofSettings c).reports run) := by
  intro h
  let c : Config.Aggregation := { workers := 1, flushInterval := 700000, percentiles := [] }
  let hits : Metric ℚ := ⟨"hits", .counter 5, 1, .empty, none⟩
  let run : List (Shard.Operation ℚ) :=
    [.merge hits 0, .expire 300000 1000, .expire 600000 1000, .snapshot 700000]
  have hschedule : Shard.OnSchedule c 0 run :=
    ⟨by decide +kernel, by decide +kernel, by decide +kernel⟩
  have htells := h c 0 run (by decide +kernel) hschedule
  have hreports : (Shard.ofSettings c).reports run = [{}] := by decide +kernel
  have hwindows : Shard.windows [] run = [[hits]] := rfl
  rw [hreports, hwindows, List.forall₂_cons] at htells
  have hown : (Series.key ⟨"hits", .empty⟩ .counter).own [hits] ≠ [] := by decide +kernel
  obtain ⟨r, hr, -⟩ := htells.1.counted trivial ⟨"hits", .empty⟩ hown
  cases hr

end StatsDaemon
