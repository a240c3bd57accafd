import StatsDaemon.Proofs.Pipeline.Ownership

namespace StatsDaemon

open Pipeline

-- What is known of terms, of what they come to between two flushes, and of what such sums come to.
structure Tally (α : Type) [Number α] where
  term : α → Prop
  part : α → Prop
  whole : α → Prop
  zero : part Number.zero
  first : ∀ {x}, term x → part x
  add : ∀ {s x}, part s → term x → part (s + x)
  start : whole Number.zero
  joined : ∀ {x}, part x → whole x
  join : ∀ {s x}, whole s → part x → whole (s + x)

-- What is known of gauges and samples, of the increments of counters, and of the numbers of
-- measurements that samples stand for.
structure Regime (α : Type) [Number α] where
  value : α → Prop
  increments : Tally α
  weights : Tally α

namespace Regime

variable {α : Type} [Number α] (R : Regime α)

def Admits (value : Value α) (rate : α) : Prop :=
  match value with
  | .counter x => R.increments.term (x / rate)
  | .gauge x => R.value x
  | .set _ => True
  | .timer x => R.value x ∧ R.weights.term (Number.one / rate)

def Holds : Aggregate α → Prop
  | .counter sum total => R.increments.part sum ∧ R.increments.whole total
  | .gauge x => R.value x
  | .set _ => True
  | .timer samples count => (∀ x ∈ samples, R.value x) ∧ R.weights.part count

theorem holds_start {value : Value α} {rate : α} (h : R.Admits value rate) :
    R.Holds (.start value rate) := by
  cases value with
  | counter x => exact ⟨R.increments.first h, R.increments.start⟩
  | gauge x => exact h
  | set member => trivial
  | timer x => exact ⟨fun y hy => List.mem_singleton.mp hy ▸ h.1, R.weights.first h.2⟩

theorem holds_insert {a b : Aggregate α} {value : Value α} {rate : α} (ha : R.Holds a)
    (h : R.Admits value rate) (hinsert : a.insert value rate = .ok b) : R.Holds b := by
  cases a <;> cases value <;>
    simp only [Aggregate.insert, Except.ok.injEq, reduceCtorEq] at hinsert <;> subst hinsert
  case counter.counter => exact ⟨R.increments.add ha.1 h, ha.2⟩
  case gauge.gauge => exact h
  case set.set => trivial
  case timer.timer =>
    refine ⟨fun y hy => ?_, R.weights.add ha.2 h.2⟩
    rcases List.mem_append.mp hy with hy | hy
    · exact ha.1 y hy
    · exact List.mem_singleton.mp hy ▸ h.1

theorem holds_reset {e : Entry α} (h : R.Holds e.aggregate) : R.Holds e.reset.aggregate := by
  obtain ⟨key, aggregate, lastSeen⟩ := e
  cases aggregate with
  | counter value total => exact ⟨R.increments.zero, R.increments.join h.2 h.1⟩
  | gauge x => exact h
  | set members => trivial
  | timer samples count =>
    simp only [Entry.reset]
    split
    · exact h
    · exact ⟨fun _ hy => absurd hy List.not_mem_nil, R.weights.zero⟩

structure Reports (delta count : α → Prop) (s : Snapshot α) : Prop where
  counters : ∀ c ∈ s.counters, delta c.delta ∧ R.increments.whole c.total
  gauges : ∀ g ∈ s.gauges, R.value g.value
  timers : ∀ t ∈ s.timers, (∀ x ∈ t.samples, R.value x) ∧ count t.sampledCount

abbrev Fresh (s : Snapshot α) : Prop :=
  R.Reports R.increments.part R.weights.part s

abbrev Joined (s : Snapshot α) : Prop :=
  R.Reports R.increments.whole R.weights.whole s

variable {R}

theorem Fresh.joined {s : Snapshot α} (h : R.Fresh s) : R.Joined s where
  counters c hc := ⟨R.increments.joined (h.counters c hc).1, (h.counters c hc).2⟩
  gauges := h.gauges
  timers t ht := ⟨(h.timers t ht).1, R.weights.joined (h.timers t ht).2⟩

end Regime

-- What is so of the items, and stays so when another one is folded in, is so of the result.
theorem foldl_foldReading_forall {β : Type} (series : β → Series) (fold : β → β → β)
    {P Q : β → Prop} (hnew : ∀ y, Q y → P y) (hfold : ∀ y z, P y → Q z → P (fold y z))
    (items more : List β) (hitems : ∀ y ∈ items, P y) (hmore : ∀ y ∈ more, Q y) :
    ∀ y ∈ more.foldl (foldReading series fold) items, P y := by
  induction more generalizing items with
  | nil => exact hitems
  | cons item rest ih =>
    obtain ⟨hitem, hrest⟩ := List.forall_mem_cons.mp hmore
    refine ih _ (fun y hy => ?_) hrest
    rcases foldReading_cases series fold items item with
      ⟨-, heq⟩ | ⟨before, x, after, rfl, -, heq⟩
    · rw [heq, List.mem_append, List.mem_singleton] at hy
      rcases hy with hy | rfl
      · exact hitems y hy
      · exact hnew y hitem
    · rw [heq, List.mem_append, List.mem_cons] at hy
      rcases hy with hy | rfl | hy
      · exact hitems y (by simp [hy])
      · exact hfold x item (hitems x (by simp)) hitem
      · exact hitems y (by simp [hy])

namespace Regime

variable {α : Type} [Number α] {R : Regime α}

theorem Joined.merge {s later : Snapshot α} (h : R.Joined s) (hlater : R.Fresh later) :
    R.Joined (s.merge later) where
  counters := foldl_foldReading_forall _ _
    (fun _ hy => ⟨R.increments.joined hy.1, hy.2⟩)
    (fun _ _ hy hz => ⟨R.increments.join hy.1 hz.1, hz.2⟩) _ _ h.counters hlater.counters
  gauges := by
    refine foldl_foldReading_forall _ _ (Q := fun g : GaugeReading α => R.value g.value)
      (fun _ hy => hy) (fun _ _ _ hz => ?_) _ _ h.gauges hlater.gauges
    exact hz
  timers := foldl_foldReading_forall _ _
    (fun _ hy => ⟨hy.1, R.weights.joined hy.2⟩)
    (fun _ _ hy hz => ⟨List.forall_mem_append.mpr ⟨hy.1, hz.1⟩, R.weights.join hy.2 hz.2⟩) _ _
    h.timers hlater.timers

variable (R) in
def Fills (s : Shard α) : Prop :=
  ∀ e ∈ s.entries, R.Holds e.aggregate

theorem Fills.merge {s t : Shard α} {m : KeyedMetric α} {now : Nat} (h : R.Fills s)
    (hm : R.Admits m.value m.sampleRate) (hmerge : s.merge m now = .ok t) : R.Fills t := by
  obtain ⟨entries, hentries, rfl⟩ := Shard.merge_eq_ok s t m now hmerge
  intro x hx
  rcases Shard.mergeEntries_cases m now _ entries hentries with
    ⟨before, e, after, a, hs, -, -, ha, rfl⟩ | ⟨-, rfl⟩
  · simp only [List.mem_append, List.mem_cons] at hx
    rcases hx with hx | rfl | hx
    · exact h x (by simp [hs, hx])
    · exact R.holds_insert (h e (by simp [hs])) hm ha
    · exact h x (by simp [hs, hx])
  · rcases List.mem_append.mp hx with hx | hx
    · exact h x hx
    · exact List.mem_singleton.mp hx ▸ R.holds_start hm

theorem Fills.addEvent {s : Shard α} (h : R.Fills s) (e : Event) : R.Fills (s.addEvent e).1 := by
  unfold Shard.addEvent
  split <;> exact h

theorem Fills.expireChunk {s : Shard α} (h : R.Fills s) (now chunk : Nat) :
    R.Fills (s.expireChunk now chunk).1 := by
  obtain ⟨gone, hs, -⟩ := Shard.expireChunk_scanned s now chunk
  exact fun e he => h e (hs.entries.subset (List.mem_append_right _ he))

theorem Fills.readings {s : Shard α} (h : R.Fills s) (now : Nat) {β : Type} {P : β → Prop}
    {read : Entry α → Option β}
    (hread : ∀ e r, R.Holds e.aggregate → read e = some r → P r) :
    ∀ r ∈ (s.entries.filter fun e => !s.isIdle now e).filterMap read, P r := by
  intro r hr
  obtain ⟨e, he, hr⟩ := List.mem_filterMap.mp hr
  exact hread e r (h e (List.mem_of_mem_filter he)) hr

theorem Fills.report {s : Shard α} (h : R.Fills s) (now : Nat) : R.Fresh (s.snapshot now).2 where
  counters := h.readings now fun e c he hc => by
    unfold Entry.counterReading? at hc
    split at hc <;> cases hc
    rename_i ha
    rw [ha] at he
    exact ⟨he.1, R.increments.join he.2 he.1⟩
  gauges := h.readings now fun e g he hg => by
    unfold Entry.gaugeReading? at hg
    split at hg <;> cases hg
    rename_i ha
    rwa [ha] at he
  timers := h.readings now fun e t he ht => by
    unfold Entry.timerReading? at ht
    split at ht
    · rename_i ha
      split at ht <;> cases ht
      rwa [ha] at he
    · cases ht

theorem Fills.snapshot {s : Shard α} (h : R.Fills s) (now : Nat) : R.Fills (s.snapshot now).1 := by
  intro x hx
  obtain ⟨e, he, rfl⟩ := Shard.mem_snapshot s now x hx
  exact R.holds_reset (h e he)

def Keeps (R : Regime α) (w : Worker α) (metrics : List (KeyedMetric α)) (next : Worker α) :
    Prop :=
  (∀ m ∈ metrics, R.Admits m.value m.sampleRate) → R.Fills w.shard → R.Fills next.shard

theorem Keeps.trans {w middle next : Worker α} {metrics more : List (KeyedMetric α)}
    (h : R.Keeps w metrics middle) (hnext : R.Keeps middle more next) :
    R.Keeps w (metrics ++ more) next := by
  intro hmetrics hfills
  obtain ⟨hfirst, hmore⟩ := List.forall_mem_append.mp hmetrics
  exact hnext hmore (h hfirst hfills)

theorem keeps_addMetric (now : Nat) (w : Worker α) (m : KeyedMetric α) :
    R.Keeps w [m] (w.addMetric m now).1 := by
  intro hm hfills
  unfold Worker.addMetric
  split
  · rename_i shard hmerge
    exact hfills.merge (hm m List.mem_cons_self) hmerge
  · exact hfills

theorem keeps_addEvent (w : Worker α) (e : Event) : R.Keeps w [] (w.addEvent e).1 := by
  intro _ hfills
  have hshard : (w.addEvent e).1.shard = (w.shard.addEvent e).1 := by
    unfold Worker.addEvent
    split <;> rename_i heq <;> rw [heq]
  exact hshard ▸ hfills.addEvent e

variable (R) in
def AdmitsShare (share : Share α) : Prop :=
  ∀ m ∈ share.metrics, R.Admits m.value m.sampleRate

theorem Fills.handleShare {w : Worker α} (h : R.Fills w.shard) {share : Share α}
    (hshare : R.AdmitsShare share) (now : Nat) : R.Fills (w.handleShare share now).1.shard :=
  Worker.handleShare_of (R := R.Keeps) (fun _ _ h => h) Keeps.trans (keeps_addMetric now)
    keeps_addEvent w share hshare h

theorem Fills.handleShares {w : Worker α} (h : R.Fills w.shard) {shares : List (Share α)}
    (hshares : ∀ share ∈ shares, R.AdmitsShare share) (now : Nat) :
    R.Fills (w.handleShares shares now).1.shard :=
  Worker.handleShares_of (R := R.Keeps) (fun _ _ h => h) Keeps.trans (keeps_addMetric now)
    keeps_addEvent w shares (List.forall_mem_flatMap.mpr hshares) h

theorem Fills.handleFlush {w : Worker α} (h : R.Fills w.shard) (q : Queue (Share α)) (drain : Bool)
    (now : Nat) (hq : ∀ share ∈ q.items, R.AdmitsShare share) :
    R.Fills (w.handleFlush q drain now).1.shard ∧
    (∀ share ∈ (w.handleFlush q drain now).2.1.items, R.AdmitsShare share) ∧
    R.Fresh (w.handleFlush q drain now).2.2.1.snapshot := by
  cases drain with
  | false => exact ⟨h.snapshot now, hq, h.report now⟩
  | true =>
    have hdrained := h.handleShares hq now
    exact ⟨hdrained.snapshot now, fun _ hshare => (nomatch hshare), hdrained.report now⟩

theorem joined_collect (requests : List (Request α)) (report : Option (Report α))
    (hreport : ∀ p ∈ report, R.Joined p.snapshot)
    (h : ∀ r ∈ requests, ∀ p ∈ r.reply, R.Fresh p.snapshot) :
    (∀ p ∈ (Flush.collect Request.answer report requests).report, R.Joined p.snapshot) ∧
    ∀ r ∈ (Flush.collect Request.answer report requests).requests, r ∈ requests := by
  induction requests generalizing report with
  | nil => exact ⟨hreport, fun _ hr => hr⟩
  | cons r rest ih =>
    obtain ⟨hfirst, hrest⟩ := List.forall_mem_cons.mp h
    unfold Flush.collect
    cases hr : r.reply with
    | none =>
      simp only [Request.answer, hr]
      exact ⟨hreport, fun _ hmem => hmem⟩
    | some later =>
      simp only [Request.answer, hr]
      have hlater := hfirst later hr
      have hadded : ∀ p ∈ some (Flush.addReport report later), R.Joined p.snapshot := by
        intro p hp
        obtain rfl := Option.some.inj hp
        cases report with
        | none => exact hlater.joined
        | some earlier => exact (hreport earlier rfl).merge hlater
      obtain ⟨hcollected, hkept⟩ := ih _ hadded hrest
      exact ⟨hcollected, fun q hq => List.mem_cons_of_mem _ (hkept q hq)⟩

variable (R) in
structure Governs (site : Site α) : Prop where
  shard : R.Fills site.worker.shard
  queued : ∀ share ∈ site.queue.items, R.AdmitsShare share
  replies : ∀ r ∈ site.requests, ∀ p ∈ r.reply, R.Fresh p.snapshot

theorem governs_start (c : Config.Aggregation) (now : Nat) : R.Governs (.start c now) :=
  ⟨fun _ he => (nomatch he), fun _ hshare => (nomatch hshare), fun _ hr => (nomatch hr)⟩

variable {site : Site α}

theorem Governs.fold (h : R.Governs site) (now : Nat) : R.Governs (site.fold now) := by
  unfold Site.fold
  split
  · exact ⟨h.shard, h.queued, h.replies⟩
  · rename_i share rest hitems
    have hqueued := h.queued
    rw [hitems] at hqueued
    obtain ⟨hshare, hrest⟩ := List.forall_mem_cons.mp hqueued
    exact ⟨h.shard.handleShare hshare now, hrest, h.replies⟩

theorem Governs.expire (h : R.Governs site) (now : Nat) : R.Governs (site.expire now) :=
  ⟨h.shard.expireChunk now site.worker.scanChunk, h.queued, h.replies⟩

theorem Governs.answer (h : R.Governs site) (now : Nat) : R.Governs (site.answer now) := by
  unfold Site.answer
  split
  · exact ⟨h.shard, h.queued, h.replies⟩
  · rename_i request hrequest
    obtain ⟨hshard, hqueued, hreport⟩ :=
      h.shard.handleFlush site.queue request.drain now h.queued
    refine ⟨hshard, hqueued, fun r hr p hp => ?_⟩
    rcases Request.mem_fill _ _ r hr with hr | hfilled
    · exact h.replies r hr p hp
    · obtain rfl := Option.some.inj (hfilled.symm.trans hp)
      exact hreport

theorem Governs.ask (h : R.Governs site) (drain : Bool) : R.Governs (site.ask drain) := by
  refine ⟨h.shard, h.queued, fun r hr p hp => ?_⟩
  rcases List.mem_append.mp hr with hr | hr
  · exact h.replies r hr p hp
  · obtain rfl := List.mem_singleton.mp hr
    cases hp

theorem Governs.enqueue (h : R.Governs site) {share : Share α} (hshare : R.AdmitsShare share) :
    R.Governs { site with queue := (Dispatcher.enqueue site.queue share).1 } := by
  refine ⟨h.shard, fun other hother => ?_, h.replies⟩
  rcases Dispatcher.enqueue_cases site.queue share with
    ⟨-, heq⟩ | ⟨-, r, -, hitems, heq⟩ | ⟨-, -, heq⟩
  · exact h.queued other (by simpa only [heq] using hother)
  · simp only [heq, hitems, List.mem_append, List.mem_singleton] at hother
    rcases hother with hother | rfl
    · exact h.queued other hother
    · exact hshare
  · exact h.queued other (by simpa only [heq] using hother)

theorem Governs.collected (h : R.Governs site) :
    (∀ p ∈ site.collected.report, R.Joined p.snapshot) ∧
    R.Governs { site with requests := site.collected.requests } := by
  obtain ⟨hreport, hkept⟩ := joined_collect site.requests none (fun _ hp => nomatch hp) h.replies
  exact ⟨hreport, h.shard, h.queued, fun r hr => h.replies r (hkept r hr)⟩

structure Makes (R : Regime α) (thresholds : List α) (interval : Nat) (b : Batch α) : Prop where
  made : ∃ snapshots timestamp, (∀ s ∈ snapshots, R.Joined s) ∧
    b = .ofSnapshots snapshots thresholds interval timestamp

structure Rules (R : Regime α) (thresholds : List α) (interval : Nat) (s : System α) : Prop where
  sites : ∀ site ∈ s.sites, R.Governs site
  batches : ∀ b ∈ s.batches, R.Makes thresholds interval b

-- Metrics that are dispatched are admitted, and cycles have the settings of the daemon.
def Follows (R : Regime α) (thresholds : List α) (interval : Nat) : Action α → Prop
  | .dispatch records _ => ∀ m ∈ records.metrics, R.Admits m.value m.sampleRate
  | .collect used length _ => used = thresholds ∧ length = interval
  | _ => True

variable {thresholds : List α} {interval : Nat} {s : System α}

theorem rules_start (c : Config.Aggregation) (starts : List Nat) (hosts : Option Hosts.Directory) :
    R.Rules thresholds interval (.start c starts hosts) := by
  refine ⟨fun site hsite => ?_, fun b hb => nomatch hb⟩
  obtain ⟨now, -, rfl⟩ := List.mem_map.mp hsite
  exact governs_start c now

omit [Number α] in
theorem mem_tagged (hosts : Option Hosts.Directory) (now : Nat) (receipt : Receipt)
    (metrics : List (Metric α)) (m : Metric α)
    (hm : m ∈ (Delivery.enrichMetrics hosts now receipt metrics).2.1) :
    ∃ other ∈ metrics, m.value = other.value ∧ m.sampleRate = other.sampleRate := by
  induction metrics generalizing hosts receipt with
  | nil => cases hm
  | cons first rest ih =>
    rcases List.mem_cons.mp hm with rfl | hm
    · exact ⟨first, List.mem_cons_self, rfl, rfl⟩
    · obtain ⟨other, hother, heq⟩ := ih _ _ hm
      exact ⟨other, List.mem_cons_of_mem _ hother, heq⟩

theorem admits_share (d : Delivery α) (records : Records α) (now worker : Nat)
    (h : ∀ m ∈ records.metrics, R.Admits m.value m.sampleRate) :
    R.AdmitsShare (d.share records now worker) := by
  intro m hm
  obtain ⟨metric, hmetric, rfl⟩ :=
    List.mem_map.mp ((d.mem_share records now worker m).mp hm).1
  obtain ⟨other, hother, hvalue, hrate⟩ := mem_tagged _ _ _ _ metric hmetric
  simp only [Metric.keyed, hvalue, hrate]
  exact h other hother

theorem Rules.dispatch (h : R.Rules thresholds interval s) {records : Records α}
    (hrecords : ∀ m ∈ records.metrics, R.Admits m.value m.sampleRate) (now : Nat) :
    R.Rules thresholds interval (s.dispatch records now) := by
  refine ⟨fun site hsite => ?_, h.batches⟩
  obtain ⟨i, hi⟩ := List.mem_iff_getElem?.mp hsite
  rw [System.getElem?_dispatch, Option.map_eq_some_iff] at hi
  obtain ⟨before, hbefore, rfl⟩ := hi
  exact (h.sites before (List.mem_of_getElem? hbefore)).enqueue
    (admits_share s.delivery records now i hrecords)

theorem Rules.modify (h : R.Rules thresholds interval s) (worker : Nat) {f : Site α → Site α}
    (hf : ∀ {site}, R.Governs site → R.Governs (f site)) :
    R.Rules thresholds interval { s with sites := s.sites.modify worker f } := by
  refine ⟨fun site hsite => ?_, h.batches⟩
  obtain ⟨i, hi⟩ := List.mem_iff_getElem?.mp hsite
  rw [List.getElem?_modify, Option.map_eq_map, Option.map_eq_some_iff] at hi
  obtain ⟨before, hbefore, rfl⟩ := hi
  have hgoverns := h.sites before (List.mem_of_getElem? hbefore)
  split
  · exact hf hgoverns
  · exact hgoverns

theorem Rules.collect (h : R.Rules thresholds interval s) (timestamp : Nat) :
    R.Rules thresholds interval (s.collect thresholds interval timestamp) := by
  refine ⟨fun site hsite => ?_, fun b hb => ?_⟩
  · obtain ⟨before, hbefore, rfl⟩ := List.mem_map.mp hsite
    exact (h.sites before hbefore).collected.2
  · rcases List.mem_append.mp hb with hb | hb
    · exact h.batches b hb
    · obtain rfl := List.mem_singleton.mp hb
      refine ⟨_, timestamp, fun p hp => ?_, rfl⟩
      simp only [List.mem_map, List.mem_filterMap, exists_exists_and_eq_and] at hp
      obtain ⟨report, ⟨site, hsite, hreport⟩, rfl⟩ := hp
      exact (h.sites site hsite).collected.1 report hreport

theorem Rules.step (h : R.Rules thresholds interval s) {a : Action α}
    (ha : R.Follows thresholds interval a) : R.Rules thresholds interval (s.step a) := by
  cases a with
  | dispatch records now => exact h.dispatch ha now
  | learn hosts => exact ⟨h.sites, h.batches⟩
  | fold worker now => exact h.modify worker fun hsite => hsite.fold now
  | expire worker now => exact h.modify worker fun hsite => hsite.expire now
  | answer worker now => exact h.modify worker fun hsite => hsite.answer now
  | ask drain =>
    refine ⟨fun site hsite => ?_, h.batches⟩
    obtain ⟨before, hbefore, rfl⟩ := List.mem_map.mp hsite
    exact (h.sites before hbefore).ask drain
  | collect used length timestamp =>
    obtain ⟨rfl, rfl⟩ := ha
    exact h.collect timestamp

theorem Rules.run (h : R.Rules thresholds interval s) {actions : List (Action α)}
    (ha : ∀ a ∈ actions, R.Follows thresholds interval a) :
    R.Rules thresholds interval (s.run actions) := by
  induction actions generalizing s with
  | nil => exact h
  | cons a rest ih =>
    obtain ⟨hfirst, hrest⟩ := List.forall_mem_cons.mp ha
    exact ih (h.step hfirst) hrest

end Regime

end StatsDaemon
