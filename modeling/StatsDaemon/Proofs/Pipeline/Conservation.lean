import Mathlib
import StatsDaemon.Proofs.Pipeline.Folding
import StatsDaemon.Proofs.Pipeline.System

namespace StatsDaemon

open Pipeline

variable {α : Type} [ExactNumber α]

def Request.amount (r : Request α) (x : Series) : α :=
  (r.reply.map fun report => report.snapshot.amount x).getD 0

namespace Flush

def amountOf (report : Option (Report α)) (x : Series) : α :=
  (report.map fun report => report.snapshot.amount x).getD 0

theorem amountOf_addReport (earlier : Option (Report α)) (later : Report α) (x : Series) :
    amountOf (some (addReport earlier later)) x =
      amountOf earlier x + later.snapshot.amount x := by
  cases earlier with
  | none => simp [amountOf, addReport]
  | some earlier => simp [amountOf, addReport, Snapshot.amount_merge]

-- What is collected and what stays requested is what there was.
theorem amount_collect (requests : List (Request α)) (report : Option (Report α)) (x : Series) :
    amountOf (collect Request.answer report requests).report x +
        (((collect Request.answer report requests).requests).map (·.amount x)).sum =
      amountOf report x + (requests.map (·.amount x)).sum := by
  induction requests generalizing report with
  | nil => rfl
  | cons r rest ih =>
    unfold collect
    cases hr : r.reply with
    | none => simp only [Request.answer, hr]
    | some later =>
      simp only [Request.answer, hr, List.map_cons, List.sum_cons]
      rw [ih, amountOf_addReport, add_assoc]
      simp [Request.amount, hr]

end Flush

theorem Request.amount_fill (requests : List (Request α)) (r : Request α) (report : Report α)
    (x : Series) (h : requests.find? (·.reply.isNone) = some r) :
    ((fill report requests).map (·.amount x)).sum =
      (requests.map (·.amount x)).sum + report.snapshot.amount x := by
  induction requests with
  | nil => simp at h
  | cons first rest ih =>
    unfold fill
    cases hfirst : first.reply with
    | none => simp [Request.amount, hfirst, add_comm]
    | some given =>
      rw [List.find?_cons_of_neg (by simp [hfirst])] at h
      simp only [Option.isNone_some, Bool.false_eq_true, if_false, List.map_cons, List.sum_cons]
      rw [ih h, add_assoc]

namespace Site

def kept (site : Site α) (x : Series) : α :=
  site.worker.shard.amount x + (site.requests.map (·.amount x)).sum

def held (site : Site α) (x : Series) : α :=
  site.kept x + site.queue.amount x

-- What holds of a worker at any time. Entries that have not been seen since the last report have
-- nothing to report.
structure Sound (c : Config.Aggregation) (site : Site α) : Prop where
  expiry : site.worker.shard.expiry = .ofSettings c
  entries : Shard.Sound site.worker.shard.entries
  queued : ∀ share ∈ site.queue.items, ∀ m ∈ share.metrics, m.Coherent
  clock : site.since ≤ site.reading
  pending : ∀ e ∈ site.worker.shard.entries, site.since ≤ e.lastSeen ∨ ∀ x, e.amount x = 0

variable {c : Config.Aggregation} {site : Site α}

theorem sound_start (c : Config.Aggregation) (now : Nat) : (start c now : Site α).Sound c :=
  ⟨rfl, Shard.sound_nil, by simp [start, Queue.ofCapacity], Nat.le_refl _,
    by simp [start, Worker.start, Shard.ofSettings]⟩

theorem Sound.withQueue (h : site.Sound c) (queue : Queue (Share α))
    (hqueue : ∀ share ∈ queue.items, ∀ m ∈ share.metrics, m.Coherent) :
    ({ site with queue } : Site α).Sound c :=
  ⟨h.expiry, h.entries, hqueue, h.clock, h.pending⟩

-- An identity that is idle now has not been seen since the last report, so nothing is lost with it.
theorem Sound.idle (h : site.Sound c) (now : Nat) (x : Series)
    (htime : c.expiryInterval .counter = 0 ∨ now - site.since ≤ c.expiryInterval .counter) :
    ∀ e ∈ site.worker.shard.entries, site.worker.shard.isIdle now e = true → e.amount x = 0 := by
  intro e he hidle
  rcases h.pending e he with hseen | hzero
  · cases ha : e.aggregate with
    | counter v total =>
      have hkind : e.key.kind = .counter := by rw [← h.entries.kinds e he, ha]; rfl
      simp only [Shard.isIdle, ExpiryIntervals.isIdle, h.expiry, hkind, ExpiryIntervals.get,
        ExpiryIntervals.ofSettings, Bool.and_eq_true, bne_iff_ne, ne_eq, decide_eq_true_eq] at hidle
      omega
    | _ => simp [Entry.amount, ha]
  · exact hzero x

theorem Sound.folded (h : site.Sound c) (metrics : List (KeyedMetric α)) (now : Nat)
    (next : Worker α) (queue : Queue (Share α)) (hnow : site.reading ≤ now)
    (hfolded : Worker.Folded site.worker metrics now next)
    (hqueue : ∀ share ∈ queue.items, share ∈ site.queue.items) :
    ({ site with worker := next, queue, reading := now } : Site α).Sound c := by
  refine ⟨hfolded.expiry.trans h.expiry, hfolded.sound,
    fun share hshare => h.queued share (hqueue share hshare), h.clock.trans hnow, fun e he => ?_⟩
  rcases hfolded.seen e he with he | hseen
  · exact h.pending e he
  · refine .inl ?_
    rw [hseen]
    exact h.clock.trans hnow

theorem Sound.fold (h : site.Sound c) (now : Nat) (hnow : site.reading ≤ now) :
    (site.fold now).Sound c ∧ ∀ x, (site.fold now).held x = site.held x := by
  unfold Site.fold
  split
  · exact ⟨⟨h.expiry, h.entries, h.queued, h.clock.trans hnow, h.pending⟩, fun _ => rfl⟩
  · rename_i share rest hitems
    have hfolded := site.worker.handleShare_folded share now
      (h.queued share (by simp [hitems])) h.entries
    refine ⟨h.folded share.metrics now _ _ hnow hfolded fun y hy => ?_, fun x => ?_⟩
    · rw [hitems]
      exact List.mem_cons_of_mem _ hy
    · have hqueue : site.queue.amount x =
          (share.metrics.map (·.amount x)).sum + (rest.map (·.amount x)).sum := by
        simp [Queue.amount, hitems, Share.amount]
      have hrest : ({ site.queue with items := rest } : Queue (Share α)).amount x =
          (rest.map (·.amount x)).sum := rfl
      simp only [held, kept, hfolded.amount, hqueue, hrest]
      abel

theorem Sound.expire (h : site.Sound c) (now : Nat) (hnow : site.reading ≤ now)
    (htime : c.expiryInterval .counter = 0 ∨ now - site.since ≤ c.expiryInterval .counter) :
    (site.expire now).Sound c ∧ ∀ x, (site.expire now).held x = site.held x := by
  obtain ⟨gone, hs, -, -⟩ :=
    Shard.expireChunk_scanned site.worker.shard now site.worker.scanChunk
  refine ⟨⟨hs.expiry.trans h.expiry, hs.sound h.entries, h.queued, h.clock.trans hnow,
    fun e he => ?_⟩, fun x => ?_⟩
  · exact h.pending e (hs.entries.subset (List.mem_append_right _ he))
  · have hamount := hs.amount x (h.idle now x htime)
    simp only [held, kept, Site.expire, Worker.expireStep, hamount]

theorem handleFlush_amount (w : Worker α) (q : Queue (Share α)) (drain : Bool) (now : Nat)
    (hq : ∀ share ∈ q.items, ∀ m ∈ share.metrics, m.Coherent) (hs : Shard.Sound w.shard.entries) :
    ∃ metrics folded, Worker.Folded w metrics now folded ∧
      (w.handleFlush q drain now).1.shard = (folded.shard.snapshot now).1 ∧
      (w.handleFlush q drain now).2.2.1.snapshot = (folded.shard.snapshot now).2 ∧
      (∀ share ∈ (w.handleFlush q drain now).2.1.items, share ∈ q.items) ∧
      ∀ x, (w.handleFlush q drain now).2.1.amount x + (metrics.map (·.amount x)).sum =
        q.amount x := by
  cases drain with
  | false =>
    exact ⟨[], w, .refl w now hs, rfl, rfl, fun _ h => h, fun x => by simp [Worker.handleFlush]⟩
  | true =>
    have hfolded := w.handleShares_folded q.items now hq hs
    refine ⟨_, _, hfolded, rfl, rfl, ?_, fun x => ?_⟩
    · intro share hshare
      simp [Worker.handleFlush, Queue.drain] at hshare
    · rw [Worker.sum_shares]
      simp [Worker.handleFlush, Queue.drain, Queue.amount]

theorem Sound.answer (h : site.Sound c) (now : Nat) (hnow : site.reading ≤ now)
    (htime : c.expiryInterval .counter = 0 ∨ now - site.since ≤ c.expiryInterval .counter) :
    (site.answer now).Sound c ∧ ∀ x, (site.answer now).held x = site.held x := by
  unfold Site.answer
  split
  · exact ⟨⟨h.expiry, h.entries, h.queued, h.clock.trans hnow, h.pending⟩, fun _ => rfl⟩
  · rename_i request hrequest
    obtain ⟨metrics, folded, hfolded, hshard, hreport, hitems, hqueue⟩ :=
      handleFlush_amount site.worker site.queue request.drain now h.queued h.entries
    have hs := h.folded metrics now folded site.queue hnow hfolded fun _ hy => hy
    dsimp only
    refine ⟨⟨?_, ?_, fun share hshare => h.queued share (hitems share hshare), Nat.le_refl _,
      fun e he => .inr fun x => ?_⟩, fun x => ?_⟩
    · rw [hshard]
      exact hs.expiry
    · rw [hshard]
      exact Shard.snapshot_sound folded.shard now hs.entries
    · rw [hshard] at he
      obtain ⟨y, -, rfl⟩ := List.mem_map.mp he
      exact y.amount_reset x
    · have hsnapshot := Shard.snapshot_amount folded.shard now x hs.entries.kinds
        (hs.idle now x htime)
      simp only [held, kept, hshard, Shard.amount_after_snapshot,
        Request.amount_fill site.requests request _ x hrequest, hreport, hsnapshot, hfolded.amount]
      rw [← hqueue x]
      abel

theorem Sound.ask (h : site.Sound c) (drain : Bool) :
    (site.ask drain).Sound c ∧ ∀ x, (site.ask drain).held x = site.held x := by
  refine ⟨⟨h.expiry, h.entries, h.queued, h.clock, h.pending⟩, fun x => ?_⟩
  simp [held, kept, Site.ask, Request.amount]

theorem Sound.collect (h : site.Sound c) :
    ({ site with requests := site.collected.requests } : Site α).Sound c ∧
    ∀ x, Flush.amountOf site.collected.report x +
      ({ site with requests := site.collected.requests } : Site α).held x = site.held x := by
  refine ⟨⟨h.expiry, h.entries, h.queued, h.clock, h.pending⟩, fun x => ?_⟩
  have hcollect := Flush.amount_collect site.requests none x
  simp only [Flush.amountOf, Option.map_none, Option.getD_none, zero_add] at hcollect
  simp only [held, kept, Site.collected, Flush.amountOf, ← hcollect]
  abel

end Site

namespace System

def held (s : System α) (x : Series) : α :=
  (s.sites.map (·.held x)).sum

-- The books are balanced: what was dispatched is in some place.
structure Balanced (c : Config.Aggregation) (s : System α) : Prop where
  workers : s.sites ≠ []
  sites : ∀ site ∈ s.sites, site.Sound c
  balance : ∀ x, s.flushed x + s.held x + s.inRefused x = s.inDispatched x

variable {c : Config.Aggregation} {s : System α}

omit [ExactNumber α] in
theorem getElem?_modify_cases {β : Type} (items : List β) (i j : Nat) (f : β → β) :
    i = j ∧ (items.modify i f)[j]? = items[i]?.map f ∨ (items.modify i f)[j]? = items[j]? := by
  rw [List.getElem?_modify]
  by_cases hij : i = j
  · exact .inl ⟨hij, by simp [hij]⟩
  · exact .inr (by simp [hij])

theorem Balanced.modify (h : s.Balanced c) (worker : Nat) (f : Site α → Site α)
    (hf : ∀ site ∈ s.sites[worker]?, site.Sound c →
      (f site).Sound c ∧ ∀ x, (f site).held x = site.held x) :
    ({ s with sites := s.sites.modify worker f } : System α).Balanced c := by
  have hstep : ∀ site ∈ s.sites[worker]?, (f site).Sound c ∧ ∀ x, (f site).held x = site.held x :=
    fun site hsite => hf site hsite (h.sites site (List.mem_of_getElem? hsite))
  refine ⟨by simpa using h.workers, fun site hsite => ?_, fun x => ?_⟩
  · obtain ⟨i, hi⟩ := List.mem_iff_getElem?.mp hsite
    rcases getElem?_modify_cases s.sites worker i f with ⟨-, hchanged⟩ | hsame
    · rw [hchanged, Option.map_eq_some_iff] at hi
      obtain ⟨before, hbefore, rfl⟩ := hi
      exact (hstep before hbefore).1
    · exact h.sites site (List.mem_of_getElem? (hsame ▸ hi))
  · have hsame : (s.sites.modify worker f).map (·.held x) = s.sites.map (·.held x) := by
      refine List.ext_getElem? fun i => ?_
      rw [List.getElem?_map, List.getElem?_map]
      rcases getElem?_modify_cases s.sites worker i f with ⟨rfl, hchanged⟩ | hsame
      · rw [hchanged, Option.map_map]
        exact Option.map_congr fun site hsite => (hstep site hsite).2 x
      · rw [hsame]
    have hheld : ({ s with sites := s.sites.modify worker f } : System α).held x = s.held x := by
      rw [held, hsame, held]
    have hbalance := h.balance x
    rw [← hheld] at hbalance
    exact hbalance

theorem held_withQueues (sites : List (Site α)) (queues : List (Queue (Share α))) (x : Series)
    (hlength : queues.length = sites.length) :
    (((sites.zip queues).map fun p => ({ p.1 with queue := p.2 } : Site α)).map (·.held x)).sum =
      (sites.map (·.kept x)).sum + (queues.map (·.amount x)).sum := by
  induction sites generalizing queues with
  | nil =>
    obtain rfl := List.eq_nil_of_length_eq_zero hlength
    simp
  | cons site rest ih =>
    cases queues with
    | nil => simp at hlength
    | cons queue queues =>
      have hsite : ({ site with queue } : Site α).held x = site.kept x + queue.amount x := rfl
      simp only [List.zip_cons_cons, List.map_cons, List.sum_cons]
      rw [ih queues (by simpa using hlength), hsite, add_add_add_comm]

theorem Balanced.dispatch (h : s.Balanced c) (records : Records α) (now : Nat) :
    (s.dispatch records now).Balanced c := by
  have hqueues : s.delivery.dispatcher.queues ≠ [] := by simpa [delivery] using h.workers
  have hlength : (s.delivery.deliver records now { counts := {} }).1.dispatcher.queues.length =
      s.sites.length := by
    rw [Delivery.deliver_queues _ records now hqueues, Dispatcher.length_enqueueAll]
    simp [delivery]
  have hsites : (s.dispatch records now).sites =
      (s.sites.zip (s.delivery.deliver records now { counts := {} }).1.dispatcher.queues).map
        fun p => { p.1 with queue := p.2 } := rfl
  refine ⟨?_, fun site hsite => ?_, fun x => ?_⟩
  -- A worker without a queue would be left out by the zip, so their numbers are compared.
  · have hpos : 0 < s.sites.length := List.length_pos_iff.mpr h.workers
    apply List.ne_nil_of_length_pos
    rw [hsites, List.length_map, List.length_zip, hlength]
    omega
  · rw [hsites] at hsite
    obtain ⟨⟨site, queue⟩, hpair, rfl⟩ := List.mem_map.mp hsite
    obtain ⟨hmem, hqueue⟩ := List.of_mem_zip hpair
    refine (h.sites site hmem).withQueue queue fun share hshare m hm => ?_
    rw [Delivery.deliver_queues _ records now hqueues] at hqueue
    rcases Dispatcher.mem_enqueueAll _ _ _ queue hqueue share hshare with ⟨r, hr, hshare⟩ | ⟨i, rfl⟩
    · obtain ⟨other, hother, rfl⟩ := List.mem_map.mp hr
      exact (h.sites other hother).queued share hshare m hm
    · exact Delivery.coherent_of_share _ records now i m hm
  · have hdeliver := s.delivery.deliver_amount records now x hqueues
    have hbefore : s.held x = (s.sites.map (·.kept x)).sum +
        (s.delivery.dispatcher.queues.map (·.amount x)).sum := by
      simp only [held, Site.held, List.sum_map_add, delivery, List.map_map]
      rfl
    have hafter : (s.dispatch records now).held x = (s.sites.map (·.kept x)).sum +
        ((s.delivery.deliver records now { counts := {} }).1.dispatcher.queues.map
          (·.amount x)).sum := by
      rw [held, hsites]
      exact held_withQueues s.sites _ x hlength
    have hrefused : (s.dispatch records now).inRefused x = s.inRefused x +
        ((Dispatcher.refusals (s.delivery.share records now) 0
          s.delivery.dispatcher.queues).map (·.amount x)).sum := by
      simp [inRefused, System.dispatch]
    have hdispatched : (s.dispatch records now).inDispatched x = s.inDispatched x +
        ((s.delivery.tagged records now).map fun m => m.keyed.amount x).sum := by
      simp [inDispatched, System.dispatch]
    rw [hafter, hrefused, hdispatched, ← h.balance x, hbefore]
    have hflushed : (s.dispatch records now).flushed x = s.flushed x := rfl
    rw [hflushed, ← add_assoc (s.flushed x), add_add_add_comm, hdeliver]
    abel

theorem sum_reports (collected : List (Flush.Collected α (Request α))) (x : Series) :
    ((collected.filterMap Flush.Collected.report).map fun r => r.snapshot.amount x).sum =
      (collected.map fun c => Flush.amountOf c.report x).sum := by
  induction collected with
  | nil => rfl
  | cons c rest ih =>
    cases hc : c.report <;> simp [hc, ih, Flush.amountOf]

theorem Balanced.collect (h : s.Balanced c) (thresholds : List α) (interval timestamp : Nat) :
    (s.collect thresholds interval timestamp).Balanced c := by
  refine ⟨by simpa [System.collect] using h.workers, fun site hsite => ?_, fun x => ?_⟩
  · obtain ⟨before, hbefore, rfl⟩ := List.mem_map.mp hsite
    exact (h.sites before hbefore).collect.1
  · have hflushed : (s.collect thresholds interval timestamp).flushed x = s.flushed x +
        (s.sites.map fun site => Flush.amountOf site.collected.report x).sum := by
      simp only [flushed, System.collect, List.map_append, List.map_singleton, List.sum_append,
        List.sum_singleton, Flush.batchOf, Batch.amount_ofSnapshots, List.map_map]
      congr 1
      exact (sum_reports (s.sites.map Site.collected) x).trans (by rw [List.map_map]; rfl)
    have hheld : (s.sites.map fun site => Flush.amountOf site.collected.report x).sum +
        (s.collect thresholds interval timestamp).held x = s.held x := by
      simp only [held, System.collect, List.map_map, Function.comp_def]
      rw [← List.sum_map_add]
      congr 1
      exact List.map_congr_left fun site hsite => (h.sites site hsite).collect.2 x
    rw [hflushed, add_assoc (s.flushed x), hheld]
    exact h.balance x

theorem Balanced.step (h : s.Balanced c) (a : Action α) (ha : s.Timely c a) :
    (s.step a).Balanced c := by
  cases a with
  | dispatch records now => exact h.dispatch records now
  | learn hosts => exact ⟨h.workers, h.sites, h.balance⟩
  | fold worker now =>
    exact h.modify worker _ fun site hsite hsound => hsound.fold now (ha site hsite)
  | expire worker now =>
    exact h.modify worker _ fun site hsite hsound =>
      hsound.expire now (ha site hsite).1 (ha site hsite).2
  | answer worker now =>
    exact h.modify worker _ fun site hsite hsound =>
      hsound.answer now (ha site hsite).1 (ha site hsite).2
  | ask drain =>
    refine ⟨by simpa [System.step] using h.workers, fun site hsite => ?_, fun x => ?_⟩
    · obtain ⟨before, hbefore, rfl⟩ := List.mem_map.mp hsite
      exact ((h.sites before hbefore).ask drain).1
    · have hheld : (s.step (.ask drain)).held x = s.held x := by
        simp only [held, System.step, List.map_map]
        congr 1
        exact List.map_congr_left fun site hsite => ((h.sites site hsite).ask drain).2 x
      rw [hheld]
      exact h.balance x
  | collect thresholds interval timestamp => exact h.collect thresholds interval timestamp

theorem Balanced.run (h : s.Balanced c) (actions : List (Action α)) (ha : s.TimelyRun c actions) :
    (s.run actions).Balanced c := by
  induction actions generalizing s with
  | nil => exact h
  | cons a rest ih => exact ih (h.step a ha.1) ha.2

end System

end StatsDaemon
