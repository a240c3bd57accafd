import Mathlib
import StatsDaemon.Proofs.Exact
import StatsDaemon.Proofs.Shard.Run
import StatsDaemon.Proofs.Snapshot.Merge

namespace StatsDaemon

variable {α : Type} [Number α]

def CounterReading.Continues (paid : α) : List (CounterReading α) → Prop
  | [] => True
  | r :: rest => r.total = paid + r.delta ∧ Continues r.total rest

theorem CounterReading.Continues.fold (hexact : Number.SumsExactly α) {paid : α}
    {rs : List (CounterReading α)} (h : Continues paid rs) (r : CounterReading α)
    (hr : r ∈ foldAll (fun c l => { c with delta := c.delta + l.delta, total := l.total }) rs) :
    r.total = paid + r.delta := by
  cases rs with
  | nil => cases hr
  | cons first rest =>
    rw [foldAll] at hr
    induction rest generalizing first with
    | nil =>
      obtain rfl := List.mem_singleton.mp hr
      exact h.1
    | cons later rest ih =>
      -- The first two readings in one continue the same amount, so the fold goes on with them.
      obtain ⟨hfirst, hlater, hrest⟩ := h
      refine ih { first with delta := first.delta + later.delta, total := later.total }
        ⟨?_, hrest⟩ hr
      rw [← hexact.assoc, ← hfirst, hlater]

namespace Shard

omit [Number α] in
def Has (s : Shard α) (k : Key) : Prop :=
  ∃ e ∈ s.entries, e.key = k

-- In a part of a run an identity does not leave while there are reports to come.
def Retains (k : Key) : Shard α → List (Operation α) → Prop
  | _, [] => True
  | s, o :: rest => (s.Has k → (s.perform o).1.Has k ∨ reports (s.perform o).1 rest = []) ∧
      Retains k (s.perform o).1 rest

instance (s : Shard α) (k : Key) : Decidable (s.Has k) :=
  inferInstanceAs (Decidable (∃ e ∈ s.entries, e.key = k))

instance decidableRetains (k : Key) :
    (s : Shard α) → (ops : List (Operation α)) → Decidable (s.Retains k ops)
  | _, [] => .isTrue trivial
  | s, o :: rest =>
    let _ := decidableRetains k (s.perform o).1 rest
    inferInstanceAs (Decidable
      ((s.Has k → (s.perform o).1.Has k ∨ Shard.reports (s.perform o).1 rest = []) ∧
        (s.perform o).1.Retains k rest))

theorem Follows.has_iff {s : Shard α} {l : Ledger α} (h : s.Follows l) (k : Key) :
    s.Has k ↔ ∃ life, l.lives k = some life := by
  constructor
  · rintro ⟨e, he, rfl⟩
    obtain ⟨life, hl, -⟩ := h.entries e he
    exact ⟨life, hl⟩
  · rintro ⟨life, hl⟩
    exact h.lives k life hl

end Shard

def Ledger.paid (l : Ledger α) (k : Key) : α :=
  match l.lives k with
  | none => Number.zero
  | some life => life.paid

theorem Ledger.paid_of_lives {l next : Ledger α} {k : Key} (h : next.lives k = l.lives k) :
    next.paid k = l.paid k := by
  rw [paid, paid, h]

theorem Ledger.paid_merge (l : Ledger α) (m : Metric α) (now : Nat) (k : Key) :
    (l.merge m now).paid k = l.paid k := by
  by_cases hk : k = m.key
  · subst hk
    simp only [paid, lives_merge_self]
    cases l.lives m.key <;> rfl
  · exact paid_of_lives (Shard.lives_merge_of_ne l m now k hk)

-- One report. If the identity leaves with it, nothing may come after.
theorem Ledger.Reports.continues {expiry : ExpiryIntervals} {limit now : Nat} {l : Ledger α}
    {s : Snapshot α} (h : l.Reports expiry limit now s) (x : Series)
    (rest : List (CounterReading α))
    (hgone : (∃ life, l.lives (x.key .counter) = some life) →
      (l.close expiry now).lives (x.key .counter) = none → rest = [])
    (hrest : CounterReading.Continues ((l.close expiry now).paid (x.key .counter)) rest) :
    CounterReading.Continues (l.paid (x.key .counter))
      (s.counters.filter (fun r => r.series = x) ++ rest) := by
  rw [h.counters_of]
  have hclose : (l.close expiry now).lives (x.key .counter) =
      if expiry.get .counter = 0 then none
      else (l.live expiry now (x.key .counter)).map Life.close := rfl
  cases hlive : l.live expiry now (x.key .counter) with
  -- It is idle and leaves without a reading, so there are no readings to come either.
  | none =>
    rw [hlive, Option.map_none, ite_self] at hclose
    cases hl : l.lives (x.key .counter) with
    | none => exact (paid_of_lives (hclose.trans hl.symm)).symm ▸ hrest
    | some life =>
      rw [hgone ⟨life, hl⟩ hclose]
      trivial
  | some life =>
    obtain ⟨hl, -⟩ := Option.filter_eq_some_iff.mp hlive
    have hpaid : l.paid (x.key .counter) = life.paid := by rw [paid, hl]
    rw [hpaid]
    refine ⟨life.total_eq, ?_⟩
    by_cases hzero : expiry.get .counter = 0
    · rw [if_pos hzero] at hclose
      rw [hgone ⟨life, hl⟩ hclose]
      trivial
    · rw [if_neg hzero, hlive, Option.map_some] at hclose
      have hnext : (l.close expiry now).paid (x.key .counter) = life.close.paid := by
        rw [paid, hclose]
      rw [hnext, life.paid_close] at hrest
      exact hrest

theorem Ledger.Step.continues {expiry : ExpiryIntervals} {limit : Nat} {l next : Ledger α}
    {o : Shard.Operation α} {outcome : Shard.Outcome α} (h : Step expiry limit l o outcome next)
    (x : Series) (rest : List (CounterReading α))
    (hgone : (∃ life, l.lives (x.key .counter) = some life) →
      next.lives (x.key .counter) = none → rest = [])
    (hrest : CounterReading.Continues (next.paid (x.key .counter)) rest) :
    CounterReading.Continues (l.paid (x.key .counter))
      ((outcome.report?.toList.flatMap Snapshot.counters).filter (fun r => r.series = x) ++
        rest) := by
  cases h with
  | merge m now => exact (l.paid_merge m now _).symm ▸ hrest
  | addEvent e => exact hrest
  | expire now chunk gone finished hdistinct hidle hlength =>
    by_cases hk : x.key .counter ∈ gone
    · obtain ⟨life, hl, -⟩ := hidle _ hk
      rw [hgone ⟨life, hl⟩ (if_pos hk)]
      trivial
    · have hstays : (l.forget gone).lives (x.key .counter) = l.lives (x.key .counter) := if_neg hk
      exact (paid_of_lives hstays).symm ▸ hrest
  | snapshot now s hreports =>
    rw [Shard.Outcome.report?, Option.toList_some, List.flatMap_singleton]
    exact hreports.continues x rest hgone hrest

namespace Shard

theorem Follows.continues {s : Shard α} {l : Ledger α} (h : s.Follows l) (x : Series)
    (ops : List (Operation α)) (hretains : s.Retains (x.key .counter) ops) :
    CounterReading.Continues (l.paid (x.key .counter))
      (((s.reports ops).flatMap Snapshot.counters).filter fun r => r.series = x) := by
  induction ops generalizing s l with
  | nil => trivial
  | cons o rest ih =>
    obtain ⟨hstays, hrest⟩ := hretains
    obtain ⟨next, hstep, hnext, -⟩ := h.perform o
    rw [Shard.reports, List.flatMap_append, List.filter_append]
    -- If the identity leaves here, it is retained only because this was the last report.
    refine hstep.continues x _ (fun hlife hnone => ?_) (ih hnext hrest)
    rcases hstays ((h.has_iff _).mpr hlife) with hhas | hlast
    · obtain ⟨life, hlife⟩ := (hnext.has_iff _).mp hhas
      rw [hnone] at hlife
      cases hlife
    · rw [hlast]
      rfl

-- A counter in folded reports: its total is what was reported before and its delta.
theorem Follows.total_eq {s : Shard α} {l : Ledger α} (h : s.Follows l)
    (hexact : Number.SumsExactly α) (ops : List (Operation α)) (r : CounterReading α)
    (hretains : s.Retains (r.series.key .counter) ops)
    (hr : r ∈ (Snapshot.mergeAll (s.reports ops)).counters) :
    r.total = l.paid (r.series.key .counter) + r.delta := by
  have hreadings := (Snapshot.mergeAll_readings CounterReading.series
    (fun c l => { c with delta := c.delta + l.delta, total := l.total })
    (fun _ _ => rfl) Snapshot.counters rfl (fun _ _ => rfl) (s.reports ops)
    fun p hp => (h.reports_once ops p hp).counters).2 r.series
  refine (h.continues r.series ops hretains).fold hexact r ?_
  rw [← hreadings, List.mem_filter]
  exact ⟨hr, decide_eq_true rfl⟩

end Shard

section

variable {β : Type} [ExactNumber β] [PartialOrder β] [IsOrderedAddMonoid β]

theorem Number.foldl_add_nonneg (x : β) (xs : List β) (hx : 0 ≤ x) (hxs : ∀ y ∈ xs, 0 ≤ y) :
    0 ≤ xs.foldl (· + ·) x := by
  induction xs generalizing x with
  | nil => exact hx
  | cons y rest ih =>
    obtain ⟨hy, hrest⟩ := List.forall_mem_cons.mp hxs
    exact ih (x + y) (add_nonneg hx hy) hrest

theorem Life.gather_nonneg (first : Bool) (xs : List β) (hxs : ∀ y ∈ xs, 0 ≤ y) :
    0 ≤ gather first xs := by
  rw [(ExactNumber.sumsExactly β).gather_eq]
  exact Number.foldl_add_nonneg _ xs ExactNumber.zero_eq.ge hxs

theorem Life.paid_nonneg (life : Life β)
    (h : ∀ m ∈ life.metrics, ∀ x, m.increment? = some x → 0 ≤ x) : 0 ≤ life.paid := by
  refine Number.foldl_add_nonneg _ _ ExactNumber.zero_eq.ge fun d hd => ?_
  obtain ⟨i, hi, rfl⟩ := List.mem_mapIdx.mp hd
  refine gather_nonneg _ _ fun x hx => ?_
  obtain ⟨m, hm, hmx⟩ := List.mem_filterMap.mp hx
  refine h m (List.mem_append_left _ ?_) x hmx
  exact List.mem_flatten_of_mem (List.getElem_mem hi) hm

-- No total in folded reports is below its delta, if the identity stays. Only what was merged before
-- these reports needs to be not negative.
theorem delta_le_total (c : Config.Aggregation) (before segment : List (Shard.Operation β))
    (hincrements : ∀ m ∈ before.filterMap Shard.Operation.metric?,
      ∀ x, m.increment? = some x → 0 ≤ x)
    (r : CounterReading β)
    (hr : r ∈ (Snapshot.mergeAll (((Shard.ofSettings c).run before).reports segment)).counters)
    (hretains : ((Shard.ofSettings c).run before).Retains (r.series.key .counter) segment) :
    r.delta ≤ r.total := by
  obtain ⟨l, hl, hall⟩ := (Shard.follows_empty c).run_all (fun k life h => nomatch h) before
    hincrements
  rw [hl.total_eq (ExactNumber.sumsExactly β) segment r hretains hr]
  refine le_add_of_nonneg_left ?_
  unfold Ledger.paid
  split
  · exact ExactNumber.zero_eq.ge
  · rename_i life hlife
    exact life.paid_nonneg (hall _ life hlife)

end

theorem hits_delta_le_total :
    let c : Config.Aggregation := { workers := 1 }
    let hits (x : ℚ) : Metric ℚ := ⟨"hits", .counter x, 1, .empty, none⟩
    let before := [.merge (hits 5) 0, .snapshot 1000]
    let segment := [.merge (hits 3) 1500, .snapshot 2000, .merge (hits 4) 2500, .snapshot 3000]
    let s := (Shard.ofSettings c).run before
    let r : CounterReading ℚ := ⟨⟨"hits", .empty⟩, 7, 12⟩
    (∀ m ∈ before.filterMap Shard.Operation.metric?, ∀ x, m.increment? = some x → 0 ≤ x) ∧
    r ∈ (Snapshot.mergeAll (s.reports segment)).counters ∧
    s.Retains (r.series.key .counter) segment ∧ r.delta ≤ r.total := by
  intro c hits before segment s r
  have hincrements : ∀ m ∈ before.filterMap Shard.Operation.metric?,
      ∀ x, m.increment? = some x → 0 ≤ x := by
    intro m hm x hx
    obtain rfl := List.mem_singleton.mp hm
    obtain rfl := Option.some.inj hx
    decide +kernel
  have hr : r ∈ (Snapshot.mergeAll (s.reports segment)).counters := by decide +kernel
  have hretains : s.Retains (r.series.key .counter) segment := by decide +kernel
  exact ⟨hincrements, hr, hretains, delta_le_total c before segment hincrements r hr hretains⟩

-- An identity that leaves with each report and comes back: the delta of both lives is more than the
-- total of the second one.
theorem total_below_delta :
    let c : Config.Aggregation := { workers := 1, expiryCounter := some 0 }
    let hits (x : ℚ) : Metric ℚ := ⟨"hits", .counter x, 1, .empty, none⟩
    let reports := (Shard.ofSettings c).reports
      [.merge (hits 5) 0, .snapshot 1000, .merge (hits 3) 1500, .snapshot 2000]
    (Snapshot.mergeAll reports).counters = [⟨⟨"hits", .empty⟩, 8, 3⟩] := by
  decide +kernel

end StatsDaemon
