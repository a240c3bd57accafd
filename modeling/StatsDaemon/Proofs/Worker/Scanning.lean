import StatsDaemon.Proofs.Shard.Cursor
import StatsDaemon.Worker

namespace StatsDaemon

open Pipeline

variable {α : Type}

def Entry.takes (e : Entry α) (m : KeyedMetric α) : Bool :=
  e.key = m.key && e.aggregate.kind = m.value.kind

theorem Entry.takes_congr {e x : Entry α} (hkey : e.key = x.key)
    (hkind : e.aggregate.kind = x.aggregate.kind) : e.takes = x.takes := by
  funext m
  rw [takes, takes, hkey, hkind]

namespace Shard

-- Entries after some metrics were folded in at one instant. Those that took one of them were last
-- seen then, and the others were there before and were not seen.
def Renewed (metrics : List (KeyedMetric α)) (now : Nat) (entries next : List (Entry α)) : Prop :=
  ∀ x ∈ next, if metrics.any x.takes then x.lastSeen = now
    else ∃ e ∈ entries, e.key = x.key ∧ e.aggregate.kind = x.aggregate.kind ∧
      e.lastSeen = x.lastSeen

theorem renewed_of_subset {entries next : List (Entry α)} (now : Nat) (h : next ⊆ entries) :
    Renewed [] now entries next :=
  fun x hx => ⟨x, h hx, rfl, rfl, rfl⟩

theorem Renewed.trans {metrics more : List (KeyedMetric α)} {now : Nat}
    {entries middle next : List (Entry α)} (h : Renewed metrics now entries middle)
    (hnext : Renewed more now middle next) : Renewed (metrics ++ more) now entries next := by
  intro x hx
  have hlater := hnext x hx
  rw [List.any_append]
  by_cases hmore : more.any x.takes
  · rw [if_pos hmore] at hlater
    simpa [hmore] using hlater
  · rw [if_neg hmore] at hlater
    obtain ⟨e, he, hkey, hkind, hseen⟩ := hlater
    have hfirst := h e he
    rw [Entry.takes_congr hkey hkind, hkey, hkind, hseen] at hfirst
    simpa [hmore] using hfirst

end Shard

namespace Worker

inductive Job (α : Type) where
  | fold (share : Share α)
  | flush (queue : Queue (Share α)) (drain : Bool)
  | startScan
  | expire

def Job.metrics : Job α → List (KeyedMetric α)
  | .fold share => share.metrics
  | .flush queue drain => if drain then queue.items.flatMap Share.metrics else []
  | .startScan | .expire => []

def lastMerge (run : List (Nat × Job α)) (e : Entry α) : Option Nat :=
  ((run.filter fun (_, job) => job.metrics.any e.takes).map Prod.fst).getLast?

theorem lastMerge_congr (run : List (Nat × Job α)) {e x : Entry α} (hkey : e.key = x.key)
    (hkind : e.aggregate.kind = x.aggregate.kind) : lastMerge run e = lastMerge run x := by
  rw [lastMerge, lastMerge, Entry.takes_congr hkey hkind]

theorem lastMerge_concat (run : List (Nat × Job α)) (now : Nat) (job : Job α) (e : Entry α) :
    lastMerge (run ++ [(now, job)]) e =
      if job.metrics.any e.takes then some now else lastMerge run e := by
  by_cases h : job.metrics.any e.takes <;> simp [lastMerge, List.filter_append, h]

theorem lastMerge_of_renewed {run : List (Nat × Job α)} {now : Nat} (job : Job α)
    {entries next : List (Entry α)} (h : Shard.Renewed job.metrics now entries next)
    (hseen : ∀ e ∈ entries, lastMerge run e = some e.lastSeen) :
    ∀ e ∈ next, lastMerge (run ++ [(now, job)]) e = some e.lastSeen := by
  intro x hx
  have hrenewed := h x hx
  rw [lastMerge_concat]
  split at hrenewed
  · rename_i htakes
    rw [if_pos htakes, hrenewed]
  · rename_i hnone
    obtain ⟨e, he, hkey, hkind, hlast⟩ := hrenewed
    rw [if_neg hnone, ← lastMerge_congr run hkey hkind, hseen e he, hlast]

end Worker

namespace Shard

variable [Number α]

theorem mergeEntries_renewed (m : KeyedMetric α) (now : Nat) (entries merged : List (Entry α))
    (hs : (entries.map Entry.key).Nodup) (h : mergeEntries m now entries = .ok merged) :
    Renewed [m] now entries merged := by
  have hother : ∀ x ∈ entries, x.key ≠ m.key → if [m].any x.takes then x.lastSeen = now
      else ∃ e ∈ entries, e.key = x.key ∧ e.aggregate.kind = x.aggregate.kind ∧
        e.lastSeen = x.lastSeen := by
    intro x hx hkey
    rw [if_neg (by simp [Entry.takes, hkey])]
    exact ⟨x, hx, rfl, rfl, rfl⟩
  intro x hx
  rcases mergeEntries_cases m now entries merged h with
    ⟨before, e, after, a, rfl, hbefore, hkey, ha, rfl⟩ | ⟨hnew, rfl⟩
  · simp only [List.mem_append, List.mem_cons] at hx
    rcases hx with hx | rfl | hx
    · exact hother x (by simp [hx]) (hbefore x hx)
    · rw [if_pos (by
        simp [Entry.takes, hkey, Aggregate.kind_insert ha, Aggregate.kind_of_insert ha])]
    · -- No entry behind this one has its identity.
      have hafter : x.key ≠ m.key := by
        simp only [List.map_append, List.map_cons, List.nodup_append, List.nodup_cons] at hs
        exact fun hxm => hs.2.1.1 (hkey ▸ hxm ▸ List.mem_map_of_mem hx)
      exact hother x (by simp [hx]) hafter
  · rcases List.mem_append.mp hx with hx | hx
    · exact hother x hx (hnew x hx)
    · rw [List.mem_singleton.mp hx, if_pos (by simp [Entry.takes, Aggregate.kind_start])]

theorem renewed_of_error (m : KeyedMetric α) (now : Nat) (entries : List (Entry α))
    (mismatch : KindMismatch) (hs : (entries.map Entry.key).Nodup)
    (h : mergeEntries m now entries = .error mismatch) : Renewed [m] now entries entries := by
  obtain ⟨e, he, hkey, hkind⟩ := mergeEntries_error m now entries mismatch h
  intro x hx
  have htakes : x.takes m = false := by
    simp only [Entry.takes, Bool.and_eq_false_iff, decide_eq_false_iff_not]
    by_cases hx' : x.key = m.key
    · obtain rfl : x = e := List.inj_on_of_nodup_map hs hx he (hx'.trans hkey.symm)
      exact .inr hkind
    · exact .inl hx'
  rw [if_neg (by simp [htakes])]
  exact ⟨x, hx, rfl, rfl, rfl⟩

end Shard

namespace Worker

-- What folding metrics in leaves of a worker: the scan stays where it is, and what it has passed
-- does not become idle.
structure Fed (w : Worker α) (metrics : List (KeyedMetric α)) (now : Nat) (next : Worker α) :
    Prop where
  scanning : next.scanning = w.scanning
  scanChunk : next.scanChunk = w.scanChunk
  expiry : next.shard.expiry = w.shard.expiry
  cursor : next.shard.cursor = w.shard.cursor
  passed : ∀ begun ≤ now, w.shard.Passed begun → next.shard.Passed begun
  distinct : (w.shard.entries.map Entry.key).Nodup → (next.shard.entries.map Entry.key).Nodup
  renewed : (w.shard.entries.map Entry.key).Nodup →
    Shard.Renewed metrics now w.shard.entries next.shard.entries

theorem Fed.refl (now : Nat) (w : Worker α) : w.Fed [] now w :=
  ⟨rfl, rfl, rfl, rfl, fun _ _ h => h, id, fun _ => Shard.renewed_of_subset now fun _ h => h⟩

theorem Fed.trans {w middle next : Worker α} {metrics more : List (KeyedMetric α)} {now : Nat}
    (h : w.Fed metrics now middle) (hnext : middle.Fed more now next) :
    w.Fed (metrics ++ more) now next where
  scanning := hnext.scanning.trans h.scanning
  scanChunk := hnext.scanChunk.trans h.scanChunk
  expiry := hnext.expiry.trans h.expiry
  cursor := hnext.cursor.trans h.cursor
  passed begun hle hpassed := hnext.passed begun hle (h.passed begun hle hpassed)
  distinct hs := hnext.distinct (h.distinct hs)
  renewed hs := (h.renewed hs).trans (hnext.renewed (h.distinct hs))

variable [Number α]

theorem addMetric_fed (now : Nat) (w : Worker α) (m : KeyedMetric α) :
    w.Fed [m] now (w.addMetric m now).1 := by
  unfold addMetric
  cases hm : w.shard.merge m now with
  | error mismatch =>
    have hentries : Shard.mergeEntries m now w.shard.entries = .error mismatch := by
      cases h : Shard.mergeEntries m now w.shard.entries with
      | error other => simpa [Shard.merge, h, Except.map] using hm
      | ok entries => simp [Shard.merge, h, Except.map] at hm
    exact ⟨rfl, rfl, rfl, rfl, fun _ _ h => h, id,
      fun hs => Shard.renewed_of_error m now _ mismatch hs hentries⟩
  | ok shard =>
    have hpassed := fun begun (hle : begun ≤ now) (h : w.shard.Passed begun) => h.merge hle m hm
    obtain ⟨entries, hentries, rfl⟩ := Shard.merge_eq_ok w.shard shard m now hm
    exact ⟨rfl, rfl, rfl, rfl, hpassed, fun hs => Shard.mergeEntries_distinct m now _ _ hs hentries,
      fun hs => Shard.mergeEntries_renewed m now _ _ hs hentries⟩

omit [Number α] in
theorem addEvent_fed (now : Nat) (w : Worker α) (e : Event) :
    w.Fed [] now (w.addEvent e).1 := by
  have hadd : (w.addEvent e).1 = { w with shard := (w.shard.addEvent e).1 } := by
    unfold Worker.addEvent
    split <;> rename_i heq <;> rw [heq]
  have hevents : (w.shard.addEvent e).1 =
      { w.shard with events := (w.shard.addEvent e).1.events } := by
    unfold Shard.addEvent
    split <;> rfl
  rw [hadd, hevents]
  exact ⟨rfl, rfl, rfl, rfl, fun _ _ h => ⟨h.cursor_le, h.fresh⟩, id,
    fun _ => Shard.renewed_of_subset now fun _ h => h⟩

theorem handleShare_fed (w : Worker α) (share : Share α) (now : Nat) :
    w.Fed share.metrics now (w.handleShare share now).1 :=
  handleShare_of (R := fun w metrics => w.Fed metrics now) (Fed.refl now) Fed.trans
    (addMetric_fed now) (addEvent_fed now) w share

theorem handleShares_fed (w : Worker α) (shares : List (Share α)) (now : Nat) :
    w.Fed (shares.flatMap Share.metrics) now (w.handleShares shares now).1 :=
  handleShares_of (R := fun w metrics => w.Fed metrics now) (Fed.refl now) Fed.trans
    (addMetric_fed now) (addEvent_fed now) w shares

theorem handleFlush_fed (w : Worker α) (queue : Queue (Share α)) (drain : Bool) (now : Nat) :
    ∃ folded, w.Fed (Job.flush queue drain).metrics now folded ∧
      (w.handleFlush queue drain now).1 =
        { folded with shard := (folded.shard.snapshot now).1 } := by
  cases drain with
  | false => exact ⟨w, .refl now w, rfl⟩
  | true => exact ⟨_, w.handleShares_fed queue.items now, rfl⟩

end Worker

open Worker

structure Watched (α : Type) where
  worker : Worker α
  begun : Nat

namespace Watched

def start (c : Config.Aggregation) (now : Nat) : Watched α :=
  ⟨.start c now, now⟩

variable [Number α]

-- A scan begins only if none goes on, and there are steps of it only as long as it does.
def perform (w : Watched α) (now : Nat) : Job α → Watched α
  | .fold share => { w with worker := (w.worker.handleShare share now).1 }
  | .flush queue drain => { w with worker := (w.worker.handleFlush queue drain now).1 }
  | .startScan => if w.worker.scanning then w else ⟨w.worker.startScan now, now⟩
  | .expire => if w.worker.scanning then { w with worker := (w.worker.expireStep now).1 } else w

def run (w : Watched α) (jobs : List (Nat × Job α)) : Watched α :=
  jobs.foldl (fun w (now, job) => w.perform now job) w

def expireAll (w : Watched α) (times : List Nat) : Watched α :=
  w.run (times.map fun now => (now, .expire))

theorem expireAll_of_quiet (w : Watched α) (times : List Nat) (h : w.worker.scanning = false) :
    w.expireAll times = w := by
  induction times with
  | nil => rfl
  | cons now rest ih =>
    have hsame : w.perform now .expire = w := if_neg (by simp [h])
    exact (congrArg (expireAll · rest) hsame).trans ih

theorem scan_ends (w : Watched α) (times : List Nat) (hne : times ≠ [])
    (hlong : w.worker.shard.entries.length ≤
      w.worker.shard.cursor + times.length * max w.worker.scanChunk 1) :
    (w.expireAll times).worker.scanning = false := by
  induction times generalizing w with
  | nil => exact absurd rfl hne
  | cons now rest ih =>
    have hcons : w.expireAll (now :: rest) = (w.perform now .expire).expireAll rest := rfl
    cases hscanning : w.worker.scanning with
    | false => rw [expireAll_of_quiet w _ hscanning, hscanning]
    | true =>
      have hperform : w.perform now .expire = { w with worker := (w.worker.expireStep now).1 } :=
        if_pos hscanning
      rw [hcons, hperform]
      rw [List.length_cons, Nat.succ_mul] at hlong
      cases hfinished : (w.worker.shard.expireChunk now w.worker.scanChunk).2.finished with
      | true =>
        have hquiet : (w.worker.expireStep now).1.scanning = false := by
          simp [expireStep, hfinished]
        rw [expireAll_of_quiet _ rest hquiet, hquiet]
      | false =>
        have hmore : ¬ w.worker.shard.entries.length ≤
            w.worker.shard.cursor + max w.worker.scanChunk 1 := fun hle =>
          Bool.false_ne_true (hfinished.symm.trans
            ((w.worker.shard.expireChunk_finished_iff now w.worker.scanChunk).mpr hle))
        refine ih _ ?_ ?_
        -- Without another step this one would have been the last, and finished the scan.
        · rintro rfl
          simp at hlong
          omega
        · have hrest := w.worker.shard.rest_expireChunk now w.worker.scanChunk hfinished
          simp only [expireStep]
          omega

structure Sound (c : Config.Aggregation) (w : Watched α) (history : List (Nat × Job α))
    (now : Nat) : Prop where
  begun_le : w.begun ≤ now
  expiry : w.worker.shard.expiry = .ofSettings c
  passed : w.worker.shard.Passed w.begun
  anew : w.worker.scanning = false → w.worker.shard.cursor = 0
  distinct : (w.worker.shard.entries.map Entry.key).Nodup
  seen : ∀ e ∈ w.worker.shard.entries, lastMerge history e = some e.lastSeen

omit [Number α] in
theorem sound_start (c : Config.Aggregation) (now : Nat) :
    (start c now : Watched α).Sound c [] now :=
  ⟨Nat.le_refl _, rfl, Shard.passed_of_zero _ _ rfl, fun _ => rfl, List.nodup_nil,
    fun _ he => nomatch he⟩

variable {c : Config.Aggregation} {w : Watched α} {history : List (Nat × Job α)}
  {before now : Nat}

omit [Number α] in
theorem Sound.mono (h : w.Sound c history before) (hnow : before ≤ now) :
    w.Sound c history now :=
  { h with begun_le := Nat.le_trans h.begun_le hnow }

omit [Number α] in
theorem Sound.fed (h : w.Sound c history before) (hnow : before ≤ now) (job : Job α)
    (next : Worker α) (hfed : w.worker.Fed job.metrics now next) :
    Sound c { w with worker := next } (history ++ [(now, job)]) now where
  begun_le := Nat.le_trans h.begun_le hnow
  expiry := hfed.expiry.trans h.expiry
  passed := hfed.passed w.begun (Nat.le_trans h.begun_le hnow) h.passed
  anew hquiet := hfed.cursor.trans (h.anew (hfed.scanning.symm.trans hquiet))
  distinct := hfed.distinct h.distinct
  seen := lastMerge_of_renewed job (hfed.renewed h.distinct) h.seen

theorem Sound.report (h : w.Sound c history now) :
    Sound c { w with worker := { w.worker with shard := (w.worker.shard.snapshot now).1 } }
      history now where
  begun_le := h.begun_le
  expiry := h.expiry
  passed := Shard.passed_of_zero _ _ rfl
  anew _ := rfl
  distinct := Shard.snapshot_distinct _ now h.distinct
  seen x hx := by
    obtain ⟨e, he, rfl⟩ := Shard.mem_snapshot _ now x hx
    rw [Shard.reset_lastSeen, ← h.seen e he]
    exact lastMerge_congr history (Shard.reset_key e) (Shard.reset_kind e)

omit [Number α] in
theorem Sound.startScan (h : w.Sound c history before) (hquiet : w.worker.scanning = false) :
    Sound c ⟨w.worker.startScan now, now⟩ (history ++ [(now, .startScan)]) now where
  begun_le := Nat.le_refl _
  expiry := h.expiry
  passed := Shard.passed_of_zero _ _ (h.anew hquiet)
  anew _ := h.anew hquiet
  distinct := h.distinct
  seen := lastMerge_of_renewed .startScan (Shard.renewed_of_subset now fun _ he => he) h.seen

omit [Number α] in
theorem Sound.expireStep (h : w.Sound c history before) (hnow : before ≤ now)
    (hscanning : w.worker.scanning = true) :
    Sound c { w with worker := (w.worker.expireStep now).1 } (history ++ [(now, .expire)]) now := by
  have hbegun := Nat.le_trans h.begun_le hnow
  obtain ⟨gone, hscanned, -⟩ := Shard.expireChunk_scanned w.worker.shard now w.worker.scanChunk
  have hdistinct := (hscanned.entries.map Entry.key).nodup_iff.mpr h.distinct
  rw [List.map_append] at hdistinct
  refine ⟨hbegun, hscanned.expiry.trans h.expiry, h.passed.expireChunk hbegun _, fun hquiet => ?_,
    hdistinct.sublist (List.sublist_append_right _ _),
    lastMerge_of_renewed .expire (Shard.renewed_of_subset now fun e he =>
      hscanned.entries.subset (List.mem_append_right _ he)) h.seen⟩
  rw [Worker.expireStep, hscanning] at hquiet
  exact (h.passed.finished hbegun (by simpa using hquiet)).1

theorem Sound.perform (h : w.Sound c history before) (hnow : before ≤ now) (job : Job α) :
    (w.perform now job).Sound c (history ++ [(now, job)]) now := by
  cases job with
  | fold share => exact h.fed hnow (.fold share) _ (w.worker.handleShare_fed share now)
  | flush queue drain =>
    obtain ⟨folded, hfed, hflush⟩ := w.worker.handleFlush_fed queue drain now
    rw [Watched.perform, hflush]
    exact (h.fed hnow (.flush queue drain) folded hfed).report
  | startScan =>
    rw [Watched.perform]
    split
    · exact h.fed hnow .startScan _ (.refl now _)
    · rename_i hquiet
      exact h.startScan (Bool.eq_false_iff.mpr hquiet)
  | expire =>
    rw [Watched.perform]
    split
    · rename_i hscanning
      exact h.expireStep hnow hscanning
    · exact h.fed hnow .expire _ (.refl now _)

theorem Sound.run (h : w.Sound c history before) (jobs : List (Nat × Job α))
    (hclock : (before :: jobs.map Prod.fst).Pairwise (· ≤ ·)) (hnow : before ≤ now)
    (hjobs : ∀ t ∈ jobs.map Prod.fst, t ≤ now) :
    (w.run jobs).Sound c (history ++ jobs) now := by
  induction jobs generalizing w history before with
  | nil => simpa [Watched.run] using h.mono hnow
  | cons first rest ih =>
    obtain ⟨t, job⟩ := first
    obtain ⟨hbefore, hrest⟩ := List.pairwise_cons.mp hclock
    have hnext := h.perform (hbefore t List.mem_cons_self) job
    rw [List.append_cons]
    exact ih hnext hrest (hjobs t List.mem_cons_self)
      fun x hx => hjobs x (List.mem_cons_of_mem _ hx)

-- Only a step of the scan ends it.
theorem finished_of_quiet (now : Nat) (job : Job α) (hscanning : w.worker.scanning = true)
    (hquiet : (w.perform now job).worker.scanning = false) :
    w.perform now job = { w with worker := (w.worker.expireStep now).1 } ∧
      (w.worker.shard.expireChunk now w.worker.scanChunk).2.finished = true := by
  cases job with
  | fold share =>
    have hsame := (w.worker.handleShare_fed share now).scanning
    exact absurd (hsame.symm.trans hquiet) (by simp [hscanning])
  | flush queue drain =>
    obtain ⟨folded, hfed, hflush⟩ := w.worker.handleFlush_fed queue drain now
    rw [Watched.perform, hflush] at hquiet
    exact absurd (hfed.scanning.symm.trans hquiet) (by simp [hscanning])
  | startScan =>
    rw [Watched.perform, if_pos hscanning, hscanning] at hquiet
    cases hquiet
  | expire =>
    rw [Watched.perform, if_pos hscanning] at hquiet ⊢
    rw [Worker.expireStep, hscanning] at hquiet
    exact ⟨rfl, by simpa using hquiet⟩

theorem Sound.removed (h : w.Sound c history before) (now : Nat) :
    ∃ gone, (gone ++ (w.perform now .expire).worker.shard.entries).Perm w.worker.shard.entries ∧
      ∀ e ∈ gone, c.expiryInterval e.key.kind ≠ 0 ∧
        e.lastSeen + c.expiryInterval e.key.kind < now := by
  rw [Watched.perform]
  split
  · obtain ⟨gone, hscanned, -⟩ := Shard.expireChunk_scanned w.worker.shard now w.worker.scanChunk
    refine ⟨gone, hscanned.entries, fun e he => ?_⟩
    have hidle := hscanned.idle e he
    simp only [Shard.isIdle, ExpiryIntervals.isIdle, h.expiry, ExpiryIntervals.get_ofSettings,
      Bool.and_eq_true, bne_iff_ne, decide_eq_true_eq] at hidle
    exact ⟨hidle.1, by omega⟩
  · exact ⟨[], .refl _, fun _ he => absurd he List.not_mem_nil⟩

end Watched

-- A scan that ends with this job was complete, and steps of it remove nothing but idle entries. Enough
-- of them end it. Entries were last seen when the run says that they were.
structure Watched.Advances [Number α] (c : Config.Aggregation) (w : Watched α)
    (history : List (Nat × Job α)) (now : Nat) (job : Job α) (next : Watched α) : Prop where
  bounded : next.worker.shard.cursor ≤ next.worker.shard.entries.length
  anew : next.worker.scanning = false → next.worker.shard.cursor = 0
  complete : w.worker.scanning = true → next.worker.scanning = false →
    ∀ e ∈ next.worker.shard.entries, c.expiryInterval e.key.kind ≠ 0 →
      w.begun ≤ e.lastSeen + c.expiryInterval e.key.kind
  idle : job = .expire → ∃ gone,
    (gone ++ next.worker.shard.entries).Perm w.worker.shard.entries ∧
    ∀ e ∈ gone, c.expiryInterval e.key.kind ≠ 0 ∧
      e.lastSeen + c.expiryInterval e.key.kind < now
  seen : ∀ e ∈ next.worker.shard.entries,
    lastMerge (history ++ [(now, job)]) e = some e.lastSeen
  ends : ∀ times, times ≠ [] → next.worker.shard.entries.length ≤
      next.worker.shard.cursor + times.length * max next.worker.scanChunk 1 →
    (next.expireAll times).worker.scanning = false

theorem scans_complete [Number α] (c : Config.Aggregation) (start now : Nat)
    (history : List (Nat × Job α)) (job : Job α)
    (hclock : (start :: (history ++ [(now, job)]).map Prod.fst).Pairwise (· ≤ ·)) :
    let w := (Watched.start c start).run history
    w.Advances c history now job (w.perform now job) := by
  intro w
  obtain ⟨hnow, hclock⟩ : (∀ t ∈ start :: history.map Prod.fst, t ≤ now) ∧
      (start :: history.map Prod.fst).Pairwise (· ≤ ·) := by
    rw [List.map_append, ← List.cons_append, List.pairwise_append] at hclock
    exact ⟨fun t ht => hclock.2.2 t ht now List.mem_cons_self, hclock.1⟩
  have hw : w.Sound c history now := by
    simpa using (Watched.sound_start c start).run history hclock (hnow start List.mem_cons_self)
      fun t ht => hnow t (List.mem_cons_of_mem _ ht)
  have hnext := hw.perform (Nat.le_refl now) job
  refine ⟨hnext.passed.cursor_le, hnext.anew, fun hscanning hquiet e he hinterval => ?_,
    fun hjob => hjob ▸ hw.removed now, hnext.seen, Watched.scan_ends _⟩
  obtain ⟨hperform, hfinished⟩ := Watched.finished_of_quiet now job hscanning hquiet
  rw [hperform] at he
  have hfresh := (hw.passed.finished hw.begun_le hfinished).2 e he
  rw [Shard.isIdle, ExpiryIntervals.isIdle_eq_false_iff, hw.expiry,
    ExpiryIntervals.get_ofSettings] at hfresh
  exact hfresh hinterval

-- A scan in steps of one entry. What comes to the place of a removed entry is looked at as well.
theorem stale_gauges_scanned :
    let c : Config.Aggregation := { workers := 1, expiry := 10, scanChunk := 1 }
    let gauge (name : String) : KeyedMetric Binary64 :=
      Metric.keyed ⟨name, .gauge 1, 1, .empty, none⟩
    let history : List (Nat × Job Binary64) :=
      [(0, .fold ⟨[gauge "a", gauge "b", gauge "c"], []⟩), (5000, .fold ⟨[gauge "b"], []⟩),
        (11000, .startScan), (11000, .expire), (11500, .fold ⟨[gauge "d"], []⟩),
        (12000, .expire), (12500, .expire)]
    let w := (Watched.start c 0).run history
    let next := w.perform 13000 .expire
    (0 :: (history ++ [(13000, Job.expire)]).map Prod.fst).Pairwise (· ≤ ·) ∧
    w.worker.scanning = true ∧ w.begun = 11000 ∧ next.worker.scanning = false ∧
    next.worker.shard.entries.map (·.key.name) = ["d", "b"] ∧
    w.Advances c history 13000 .expire next := by
  intro c gauge history w next
  have hclock : (0 :: (history ++ [(13000, Job.expire)]).map Prod.fst).Pairwise (· ≤ ·) := by
    decide
  exact ⟨hclock, by decide +kernel, by decide +kernel, by decide +kernel, by decide +kernel,
    scans_complete c 0 13000 history .expire hclock⟩

end StatsDaemon
