import Mathlib
import StatsDaemon.Proofs.Series

namespace StatsDaemon

section

variable {β : Type}

theorem changeLast_cases (test : β → Bool) (change : β → β) (items : List β) :
    (changeLast? test change items = none ∧ ∀ y ∈ items, test y = false) ∨
    ∃ before y after, items = before ++ y :: after ∧ test y = true ∧
      changeLast? test change items = some (before ++ change y :: after) := by
  induction items with
  | nil => exact .inl ⟨rfl, by simp⟩
  | cons first rest ih =>
    rcases ih with ⟨hnone, hall⟩ | ⟨before, y, after, rfl, hy, hsome⟩
    · cases hfirst : test first with
      | false => exact .inl ⟨by simp [changeLast?, hnone, hfirst], by simpa [hfirst] using hall⟩
      | true => exact .inr ⟨[], first, rest, rfl, hfirst, by simp [changeLast?, hnone, hfirst]⟩
    · exact .inr ⟨first :: before, y, after, rfl, hy, by simp [changeLast?, hsome]⟩

variable (series : β → Series) (fold : β → β → β)

-- An item is either folded into one of its series, or there is none and it is added at the end.
theorem foldReading_cases (items : List β) (item : β) :
    ((∀ y ∈ items, series y ≠ series item) ∧
      foldReading series fold items item = items ++ [item]) ∨
    ∃ before y after, items = before ++ y :: after ∧ series y = series item ∧
      foldReading series fold items item = before ++ fold y item :: after := by
  rcases changeLast_cases (fun other => series other == series item) (fold · item) items with
    ⟨hnone, hall⟩ | ⟨before, y, after, hitems, hy, hsome⟩
  · exact .inl ⟨fun y hy => by simpa using hall y hy, by simp [foldReading, hnone]⟩
  · exact .inr ⟨before, y, after, hitems, by simpa using hy, by simp [foldReading, hsome]⟩

variable (hfold : ∀ y z, series (fold y z) = series y)

include hfold

theorem foldReading_once (items : List β) (item : β) (h : (items.map series).Nodup) :
    ((foldReading series fold items item).map series).Nodup := by
  rcases foldReading_cases series fold items item with
    ⟨hnew, heq⟩ | ⟨before, y, after, rfl, -, heq⟩
  · rw [heq, List.map_append, List.nodup_append]
    refine ⟨h, by simp, fun s hs t ht => ?_⟩
    obtain ⟨y, hy, rfl⟩ := List.mem_map.mp hs
    rw [List.map_singleton, List.mem_singleton] at ht
    exact ht ▸ hnew y hy
  · rw [heq]
    simpa [hfold] using h

theorem foldl_foldReading_once (items more : List β) (h : (items.map series).Nodup) :
    ((more.foldl (foldReading series fold) items).map series).Nodup := by
  induction more generalizing items with
  | nil => exact h
  | cons item rest ih => exact ih _ (foldReading_once series fold hfold items item h)

omit hfold in
def foldAll : List β → List β
  | [] => []
  | first :: rest => [rest.foldl fold first]

omit hfold in
theorem foldAll_foldAll_append (items more : List β) :
    foldAll fold (foldAll fold items ++ more) = foldAll fold (items ++ more) := by
  cases items with
  | nil => rfl
  | cons first rest => simp [foldAll]

omit hfold in
theorem foldAll_filter (items : List β) (x : Series) (h : (items.map series).Nodup) :
    foldAll fold (items.filter fun y => series y = x) = items.filter fun y => series y = x := by
  match hfilter : items.filter fun y => series y = x with
  | [] => rfl
  | [y] => rfl
  | y :: z :: rest =>
    have hy : y ∈ items.filter fun y => series y = x := by simp [hfilter]
    have hz : z ∈ items.filter fun y => series y = x := by simp [hfilter]
    simp only [List.mem_filter, decide_eq_true_eq] at hy hz
    have heq : y = z := List.inj_on_of_nodup_map h hy.1 hz.1 (hy.2.trans hz.2.symm)
    have hnodup : (y :: z :: rest).Nodup := hfilter ▸ (List.Nodup.of_map _ h).filter _
    simp [heq] at hnodup

theorem foldReading_filter (items : List β) (item : β) (x : Series)
    (h : (items.map series).Nodup) :
    (foldReading series fold items item).filter (fun y => series y = x) =
      foldAll fold ((items ++ [item]).filter fun y => series y = x) := by
  rcases foldReading_cases series fold items item with
    ⟨-, heq⟩ | ⟨before, y, after, rfl, hy, heq⟩
  · rw [← heq]
    exact (foldAll_filter series fold _ x (foldReading_once series fold hfold items item h)).symm
  · rw [heq]
    by_cases hx : series item = x
    · have hothers : ∀ z ∈ before ++ after, series z ≠ x := by
        intro z hz hzx
        rw [List.map_append, List.map_cons] at h
        apply (List.nodup_middle.mp h).notMem
        rw [← List.map_append, hy, hx, ← hzx]
        exact List.mem_map_of_mem hz
      have hbefore : before.filter (fun y => series y = x) = [] :=
        List.filter_eq_nil_iff.mpr fun z hz => by simpa using hothers z (by simp [hz])
      have hafter : after.filter (fun y => series y = x) = [] :=
        List.filter_eq_nil_iff.mpr fun z hz => by simpa using hothers z (by simp [hz])
      simp [hfold, hy, hx, hbefore, hafter, foldAll]
    · have hsame := foldAll_filter series fold _ x h
      simp only [List.filter_append, List.filter_cons, hfold, hy, hx, decide_false, if_false,
        List.filter_nil, List.append_nil, Bool.false_eq_true] at hsame ⊢
      exact hsame.symm

-- What stands in the result for a series is the fold of all that was there for it, in order.
theorem foldl_foldReading_filter (items more : List β) (x : Series)
    (h : (items.map series).Nodup) :
    (more.foldl (foldReading series fold) items).filter (fun y => series y = x) =
      foldAll fold ((items ++ more).filter fun y => series y = x) := by
  induction more generalizing items with
  | nil =>
    rw [List.append_nil]
    exact (foldAll_filter series fold items x h).symm
  | cons item rest ih =>
    rw [List.foldl_cons, ih _ (foldReading_once series fold hfold items item h), List.filter_append,
      foldReading_filter series fold hfold items item x h, foldAll_foldAll_append,
      ← List.filter_append]
    simp

end

variable {α : Type} [Number α]

namespace Snapshot

variable {s : Snapshot α} (later : Snapshot α)

theorem Once.merge (h : s.Once) : (s.merge later).Once where
  counters := by
    refine foldl_foldReading_once _ _ ?_ _ _ h.counters
    exact fun _ _ => rfl
  gauges := by
    refine foldl_foldReading_once _ _ ?_ _ _ h.gauges
    exact fun _ _ => rfl
  sets := by
    refine foldl_foldReading_once _ _ ?_ _ _ h.sets
    exact fun _ _ => rfl
  timers := by
    refine foldl_foldReading_once _ _ ?_ _ _ h.timers
    exact fun _ _ => rfl

theorem Once.merge_counters (h : s.Once) (x : Series) :
    (s.merge later).counters.filter (fun r => r.series = x) =
      foldAll (fun c l => { c with delta := c.delta + l.delta, total := l.total })
        (s.counters.filter (fun r => r.series = x) ++
          later.counters.filter fun r => r.series = x) := by
  rw [← List.filter_append]
  refine foldl_foldReading_filter CounterReading.series _ ?_ _ _ x h.counters
  exact fun _ _ => rfl

theorem Once.merge_gauges (h : s.Once) (x : Series) :
    (s.merge later).gauges.filter (fun r => r.series = x) =
      foldAll (fun g l => { g with value := l.value })
        (s.gauges.filter (fun r => r.series = x) ++
          later.gauges.filter fun r => r.series = x) := by
  rw [← List.filter_append]
  refine foldl_foldReading_filter GaugeReading.series _ ?_ _ _ x h.gauges
  exact fun _ _ => rfl

theorem Once.merge_sets (h : s.Once) (x : Series) :
    (s.merge later).sets.filter (fun r => r.series = x) =
      foldAll (fun t l => { t with cardinality := t.cardinality + l.cardinality })
        (s.sets.filter (fun r => r.series = x) ++ later.sets.filter fun r => r.series = x) := by
  rw [← List.filter_append]
  refine foldl_foldReading_filter SetReading.series _ ?_ _ _ x h.sets
  exact fun _ _ => rfl

theorem Once.merge_timers (h : s.Once) (x : Series) :
    (s.merge later).timers.filter (fun r => r.series = x) =
      foldAll (fun t l => { t with
          samples := t.samples ++ l.samples, sampledCount := t.sampledCount + l.sampledCount })
        (s.timers.filter (fun r => r.series = x) ++
          later.timers.filter fun r => r.series = x) := by
  rw [← List.filter_append]
  refine foldl_foldReading_filter TimerReading.series _ ?_ _ _ x h.timers
  exact fun _ _ => rfl

end Snapshot

namespace Snapshot

theorem mergeAll_readings {β : Type} (series : β → Series) (fold : β → β → β)
    (hfold : ∀ y z, series (fold y z) = series y) (list : Snapshot α → List β)
    (hempty : list {} = []) (hmerge : ∀ s later : Snapshot α,
      list (s.merge later) = (list later).foldl (foldReading series fold) (list s))
    (parts : List (Snapshot α)) (honce : ∀ p ∈ parts, ((list p).map series).Nodup) :
    ((list (mergeAll parts)).map series).Nodup ∧
    ∀ x, (list (mergeAll parts)).filter (fun y => series y = x) =
      foldAll fold ((parts.flatMap list).filter fun y => series y = x) := by
  cases parts with
  | nil => simp [mergeAll, hempty, foldAll]
  | cons first rest =>
    have hfirst := honce first List.mem_cons_self
    clear honce
    rw [mergeAll]
    -- The first report takes the next ones in one by one, and stands for all of them.
    induction rest generalizing first with
    | nil => exact ⟨hfirst, fun x => by simp [foldAll_filter series fold _ x hfirst]⟩
    | cons later rest ih =>
      have hmerged : ((list (first.merge later)).map series).Nodup := by
        rw [hmerge]
        exact foldl_foldReading_once series fold hfold _ _ hfirst
      obtain ⟨honce, hfilter⟩ := ih (first.merge later) hmerged
      refine ⟨honce, fun x => ?_⟩
      rw [List.foldl_cons, hfilter, List.flatMap_cons, List.filter_append, hmerge,
        foldl_foldReading_filter series fold hfold _ _ x hfirst, foldAll_foldAll_append]
      simp [List.filter_append]

end Snapshot

end StatsDaemon
