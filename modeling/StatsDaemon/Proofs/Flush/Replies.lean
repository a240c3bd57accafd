import StatsDaemon.Proofs.Flush.History
import StatsDaemon.Proofs.Flush.Steps

namespace StatsDaemon

open Flush Schedule

namespace Flush

theorem seen_given (p : Promise) (now : Nat) (report : Report Binary64)
    (h : p.seen now = .given report) : p.answer = .given report := by
  unfold Promise.seen at h
  split at h
  · split at h
    · exact h
    · cases h
  · cases h

theorem seen_dropped (p : Promise) (now : Nat) (h : p.seen now = .dropped) :
    p.answer = .dropped := by
  unfold Promise.seen at h
  split at h
  · split at h
    · exact h
    · cases h
  · cases h

-- The loop merges each report into those before it.
def addReports (report : Option (Report Binary64)) (reports : List (Report Binary64)) :
    Option (Report Binary64) :=
  reports.foldl (fun earlier later => some (addReport earlier later)) report

theorem addReports_some (earlier : Report Binary64) (reports : List (Report Binary64)) :
    addReports (some earlier) reports = some (reports.foldl (fun earlier later =>
      ⟨earlier.snapshot.merge later.snapshot, later.identities⟩) earlier) := by
  induction reports generalizing earlier with
  | nil => rfl
  | cons report rest ih => exact ih _

theorem addReports_none (reports : List (Report Binary64)) :
    addReports none reports = contribution? reports := by
  cases reports with
  | nil => rfl
  | cons first rest => exact addReports_some first rest

theorem snapshot_of_contribution (reports : List (Report Binary64)) (whole : Report Binary64)
    (h : contribution? reports = some whole) :
    whole.snapshot = Snapshot.mergeAll (reports.map Report.snapshot) := by
  cases reports with
  | nil => cases h
  | cons first rest =>
    simp only [contribution?, Option.some.injEq] at h
    subst h
    rw [List.map_cons, Snapshot.mergeAll]
    induction rest generalizing first with
    | nil => rfl
    | cons report rest ih => exact ih _

theorem collect_report (now : Nat) (requests : List Promise) (report : Option (Report Binary64)) :
    (collect (Promise.seen now) report requests).report =
      addReports report (answered now requests) := by
  induction requests generalizing report with
  | nil => rfl
  | cons p rest ih =>
    unfold collect answered
    cases hp : p.seen now with
    | given later => exact ih _
    | awaited => rfl
    | dropped => rfl

theorem collect_requests (now : Nat) (requests : List Promise) (report : Option (Report Binary64))
    (h : ∀ p ∈ requests, p.answer ≠ .dropped) :
    requests.map Promise.answer = (answered now requests).map .given ++
      (collect (Promise.seen now) report requests).requests.map Promise.answer := by
  induction requests generalizing report with
  | nil => rfl
  | cons p rest ih =>
    unfold collect answered
    cases hp : p.seen now with
    | given later =>
      have hrest := ih (some (addReport report later)) fun q hq => h q (List.mem_cons_of_mem _ hq)
      simp only [List.map_cons, List.cons_append, seen_given p now later hp]
      rw [hrest]
    | awaited => rfl
    | dropped => exact absurd (seen_dropped p now hp) (h p List.mem_cons_self)

end Flush

namespace Schedule.LateRun

structure Alike (s t : LateRun) : Prop where
  settings : t.settings = s.settings
  pool : t.pool = s.pool
  backends : t.backends.map Backend.name = s.backends.map Backend.name
  outstanding : t.outstanding = s.outstanding
  sent : t.sent = s.sent

def collecting (s : LateRun) : Bool :=
  match s.phase with
  | .collecting _ _ => true
  | _ => false

-- Everything that the service can do: begin a cycle, end one, wait in one, or something else that
-- has nothing to do with cycles.
theorem step_cases (s t : LateRun) (now : Nat) (h : s.step? now = some t) :
    (s.phase = .idle ∧ ∃ r occasion, Alike s r ∧ t = r.beginCycle occasion now) ∨
    ((∃ deadline occasion, s.phase = .collecting deadline occasion ∧
      t = s.endCycle occasion (s.collected now) now)) ∨
    ((∃ deadline occasion, s.phase = .collecting deadline occasion) ∧ t = s.await) ∨
    (s.collecting = false ∧ t.collecting = false ∧ Alike s t) := by
  cases Service.step_of_step? h with
  | complete p pending free =>
    have hfree : s.collecting = false := by
      unfold collecting
      split
      · exact absurd ‹_› (free _ _)
      · rfl
    exact .inr (.inr (.inr ⟨hfree, hfree, ⟨rfl, rfl, rfl, rfl, rfl⟩⟩))
  | message drain requests idle =>
    exact .inl ⟨idle, { s with requests }, .message drain, ⟨rfl, rfl, rfl, rfl, rfl⟩, rfl⟩
  | tick idle =>
    exact .inl ⟨idle, { s with ticker := s.ticker.skip now }, .tick, ⟨rfl, rfl, rfl, rfl, rfl⟩, rfl⟩
  | finish deadline occasion hphase => exact .inr (.inl ⟨deadline, occasion, hphase, rfl⟩)
  | await deadline occasion hphase => exact .inr (.inr (.inl ⟨⟨deadline, occasion, hphase⟩, rfl⟩))
  | reply batch hphase =>
    exact .inr (.inr (.inr ⟨by simp [collecting, hphase], rfl, ⟨rfl, rfl, rfl, rfl, rfl⟩⟩))

structure Kept (settings : Settings) (scripts : List (List WorkerReply)) (backends : List Backend)
    (s : LateRun) (h : History) : Prop where
  same : s.settings = settings
  names : s.backends.map Backend.name = backends.map Backend.name
  coming : s.pool.scripts = scripts.map (List.drop h.begun)
  workers : s.outstanding.length = scripts.length
  complete : ∀ (worker : Nat) (script : List WorkerReply), scripts[worker]? = some script →
    .drop ∉ script → replies script h.begun =
      (h.cycles.flatMap fun cycle => cycle.merged[worker]?.getD []).map .given ++
        (s.outstanding[worker]?.getD []).map Promise.answer
  batches : s.sent =
    h.cycles.flatMap fun cycle => backends.map fun b => (b.name, cycle.batch settings)

variable {settings : Settings} {scripts : List (List WorkerReply)} {backends : List Backend}
  {s t : LateRun} {h : History}

theorem Kept.alike (hk : Kept settings scripts backends s h) (halike : Alike s t) :
    Kept settings scripts backends t h := by
  obtain ⟨hsettings, hpool, hbackends, houtstanding, hsent⟩ := halike
  exact ⟨hsettings.trans hk.same, hbackends.trans hk.names, hpool ▸ hk.coming,
    houtstanding ▸ hk.workers,
    fun worker script hscript hdrop => houtstanding ▸ hk.complete worker script hscript hdrop,
    hsent.trans hk.batches⟩

theorem replies_succ (script : List WorkerReply) (n : Nat) :
    replies script (n + 1) = replies script n ++ [(script[n]?.getD .empty).answer] := by
  simp [replies, List.range_succ]

theorem promise_answer (r : WorkerReply) (now : Nat) : (r.promise now).answer = r.answer := by
  cases r <;> rfl

theorem ne_dropped_of_replies (script : List WorkerReply) (n : Nat) (a : Answer Binary64)
    (hdrop : .drop ∉ script) (ha : a ∈ replies script n) : a ≠ .dropped := by
  obtain ⟨i, -, rfl⟩ := List.mem_map.mp ha
  cases hi : script[i]? with
  | none => simp [WorkerReply.empty, WorkerReply.answer]
  | some r =>
    cases r with
    | drop => exact absurd (List.mem_of_getElem? hi) hdrop
    | _ => simp [WorkerReply.answer]

theorem Kept.beginCycle (hk : Kept settings scripts backends s h) (occasion : Occasion)
    (now : Nat) :
    Kept settings scripts backends (s.beginCycle occasion now) { h with begun := h.begun + 1 } := by
  have hpool : (s.beginCycle occasion now).pool.scripts = s.pool.scripts.map List.tail := rfl
  have houtstanding : (s.beginCycle occasion now).outstanding =
      s.outstanding.zipWith (fun requests p => requests ++ [p])
        (s.pool.scripts.map fun script => (script.head?.getD .empty).promise now) := rfl
  refine ⟨hk.same, hk.names, ?_, ?_, fun worker script hscript hdrop => ?_, hk.batches⟩
  · rw [hpool, hk.coming, List.map_map]
    exact List.map_congr_left fun script _ => List.tail_drop
  · rw [houtstanding, List.length_zipWith, List.length_map, hk.coming, List.length_map, hk.workers,
      Nat.min_self]
  · have hworker : worker < s.outstanding.length := by
      rw [hk.workers]
      exact (List.getElem?_eq_some_iff.mp hscript).1
    have hasked : (s.beginCycle occasion now).outstanding[worker]? =
        some (s.outstanding[worker] ++ [(script[h.begun]?.getD .empty).promise now]) := by
      rw [houtstanding, hk.coming, List.getElem?_zipWith, List.getElem?_map, List.getElem?_map,
        hscript, List.getElem?_eq_getElem hworker]
      simp [List.head?_drop]
    have hearlier := hk.complete worker script hscript hdrop
    rw [List.getElem?_eq_getElem hworker] at hearlier
    rw [replies_succ, hearlier, hasked]
    simp [promise_answer]

theorem getElem?_map_getD {β γ : Type} (lists : List (List β)) (f : List β → List γ) (i : Nat)
    (hf : f [] = []) : (lists.map f)[i]?.getD [] = f (lists[i]?.getD []) := by
  rw [List.getElem?_map]
  cases lists[i]? with
  | none => exact hf.symm
  | some list => rfl

theorem Kept.await (hk : Kept settings scripts backends s h) :
    Kept settings scripts backends s.await h := by
  refine ⟨hk.same, hk.names, hk.coming, by simpa [Service.await] using hk.workers,
    fun worker script hscript hdrop => ?_, hk.batches⟩
  have hsame : (s.await.outstanding[worker]?.getD []).map Promise.answer =
      (s.outstanding[worker]?.getD []).map Promise.answer := by
    simp only [Service.await]
    rw [getElem?_map_getD _ _ worker rfl, List.map_map]
    rfl
  rw [hsame]
  exact hk.complete worker script hscript hdrop

theorem name_next (b : Backend) : b.next.1.name = b.name := by
  unfold Backend.next
  split <;> rfl

-- What the end of a cycle does to the state, whoever wanted the cycle.
structure Ended (s t : LateRun) (collected : List (Collected Binary64 Promise))
    (batch : Batch Binary64) : Prop where
  settings : t.settings = s.settings
  pool : t.pool = s.pool
  backends : t.backends = (s.backends.map Backend.next).map Prod.fst
  outstanding : t.outstanding = collected.map fun c =>
    c.requests.map fun p => { p with fresh := false }
  sent : t.sent = s.sent ++ (s.backends.map Backend.next).map fun (b, _) => (b.name, batch)

theorem endCycle_ended (s : LateRun) (occasion : Occasion)
    (collected : List (Collected Binary64 Promise)) (now : Nat) :
    Ended s (s.endCycle occasion collected now) collected
      (batchOf (collected.filterMap Collected.report) s.settings.thresholds s.settings.interval
        (s.settings.timestamp now)) := by
  rcases occasion with _ | (_ | _) <;> exact ⟨rfl, rfl, rfl, rfl, rfl⟩

theorem collected_reports (s : LateRun) (now : Nat) :
    (s.collected now).filterMap Collected.report =
      (s.outstanding.map (answered now)).filterMap contribution? := by
  rw [Service.collected, List.filterMap_map, List.filterMap_map]
  congr 1
  funext requests
  exact (collect_report now requests none).trans (addReports_none _)

theorem Kept.endCycle (hk : Kept settings scripts backends s h) (occasion : Occasion) (now : Nat) :
    Kept settings scripts backends (s.endCycle occasion (s.collected now) now)
      { h with cycles := h.cycles ++ [⟨s.outstanding.map (answered now), now⟩] } := by
  obtain ⟨hsettings, hpool, hbackends, houtstanding, hsent⟩ :=
    endCycle_ended s occasion (s.collected now) now
  refine ⟨hsettings.trans hk.same, ?_, hpool ▸ hk.coming, ?_,
    fun worker script hscript hdrop => ?_, ?_⟩
  · rw [hbackends, List.map_map, List.map_map, ← hk.names]
    exact List.map_congr_left fun b _ => name_next b
  · rw [houtstanding, ← hk.workers]
    simp [Service.collected]
  · have hearlier := hk.complete worker script hscript hdrop
    -- A request that is dropped would end the collection, and leave reports behind.
    have hwaiting : ∀ p ∈ s.outstanding[worker]?.getD [], p.answer ≠ .dropped := by
      intro p hp
      refine ne_dropped_of_replies script h.begun p.answer hdrop ?_
      rw [hearlier]
      exact List.mem_append_right _ (List.mem_map_of_mem hp)
    have hcollect := collect_requests now _ none hwaiting
    have hrest : ((s.endCycle occasion (s.collected now) now).outstanding[worker]?.getD []).map
        Promise.answer = (collect (Promise.seen now) none
          (s.outstanding[worker]?.getD [])).requests.map Promise.answer := by
      rw [houtstanding, Service.collected, List.map_map, getElem?_map_getD _ _ worker rfl]
      simp only [Function.comp_apply, List.map_map]
      rfl
    have hmerged : ((s.outstanding.map (answered now))[worker]?.getD []) =
        answered now (s.outstanding[worker]?.getD []) := getElem?_map_getD _ _ worker rfl
    rw [hearlier, hcollect, hrest, List.flatMap_append, List.flatMap_singleton, hmerged,
      List.map_append, List.append_assoc]
  · rw [hsent, hk.batches, List.flatMap_append, List.flatMap_singleton, collected_reports, hk.same]
    congr 1
    have hnames : (s.backends.map Backend.name).map
        (·, (⟨s.outstanding.map (answered now), now⟩ : Cycle).batch settings) =
      backends.map fun b =>
        (b.name, (⟨s.outstanding.map (answered now), now⟩ : Cycle).batch settings) := by
      rw [hk.names, List.map_map]
      rfl
    rw [← hnames, List.map_map, List.map_map]
    exact List.map_congr_left fun b _ => by simp only [Function.comp_apply, name_next]; rfl

theorem Kept.perform (hk : Kept settings scripts backends s h) (move : Move) :
    Kept settings scripts backends (s.perform move) (s.record h move) := by
  cases move with
  | send drain => exact hk.alike ⟨rfl, rfl, rfl, rfl, rfl⟩
  | report number failure now => exact hk.alike ⟨rfl, rfl, rfl, rfl, rfl⟩
  | act now =>
    cases hstep : s.step? now with
    | none => simpa [LateRun.perform, record, hstep] using hk
    | some t =>
      have hperform : s.perform (.act now) = t := by simp [LateRun.perform, hstep]
      rw [hperform]
      -- A cycle begins, ends or goes on waiting, or the step has nothing to do with cycles.
      rcases step_cases s t now hstep with ⟨hphase, r, occasion, halike, rfl⟩ |
        ⟨deadline, occasion, hphase, rfl⟩ | ⟨⟨deadline, occasion, hphase⟩, rfl⟩ |
        ⟨hs, ht, halike⟩
      · have hrecord : s.record h (.act now) = { h with begun := h.begun + 1 } := by
          simp only [record, hstep, hphase, Option.map_some]
          rfl
        rw [hrecord]
        exact (hk.alike halike).beginCycle occasion now
      · have hrecord : s.record h (.act now) =
            { h with cycles := h.cycles ++ [⟨s.outstanding.map (answered now), now⟩] } := by
          simp only [record, hstep, hphase, Option.map_some]
          rcases occasion with _ | (_ | _) <;> rfl
        rw [hrecord]
        exact hk.endCycle occasion now
      · have hrecord : s.record h (.act now) = h := by
          simp only [record, hstep, hphase, Option.map_some, Service.await]
        rw [hrecord]
        exact hk.await
      · have hrecord : s.record h (.act now) = h := by
          simp only [record, hstep, Option.map_some]
          cases hsphase : s.phase <;> cases htphase : t.phase <;>
            simp_all [LateRun.collecting]
        rw [hrecord]
        exact hk.alike halike

theorem Kept.run (hk : Kept settings scripts backends s h) (moves : List Move) :
    Kept settings scripts backends (LateRun.run moves (s, h)).1 (LateRun.run moves (s, h)).2 := by
  induction moves generalizing s h with
  | nil => exact hk
  | cons move rest ih => exact ih (hk.perform move)

end Schedule.LateRun

-- The first report misses its cycle and goes into the second one, before the report of that cycle.
example :
    (LateRun.run [.send false, .act 0, .act 0, .act 1000, .act 1000, .send false, .act 1200,
        .act 1200, .act 1600]
      (.start (.default 1) [[.report 1500 ⟨{}, 1⟩, .report 0 ⟨{}, 2⟩]] [] 0,
        {})).2.cycles.map (·.merged.map (·.map Report.identities)) = [[[]], [[1, 2]]] := by
  decide

end StatsDaemon
