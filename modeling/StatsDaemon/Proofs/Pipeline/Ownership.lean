import StatsDaemon.Proofs.Pipeline.Scope

namespace StatsDaemon

open Pipeline

variable {α : Type}

namespace System

structure Owned (n : Nat) (s : System α) : Prop where
  workers : s.sites.length = n
  sites : ∀ i (site : Site α), s.sites[i]? = some site → site.Owns fun k => k.shard n = i
  batches : ∀ b ∈ s.batches, b.Increasing

theorem owned_start (c : Config.Aggregation) (starts : List Nat) (hosts : Option Hosts.Directory) :
    (start c starts hosts : System α).Owned starts.length := by
  refine ⟨by simp [start], fun i site hsite => ?_, fun b hb => nomatch hb⟩
  obtain ⟨now, -, rfl⟩ := List.mem_map.mp (List.mem_of_getElem? hsite)
  exact Site.owns_start c now _

theorem workers_delivery (s : System α) : s.delivery.dispatcher.workers = s.sites.length := by
  simp [delivery, Dispatcher.workers]

theorem getElem?_dispatch (s : System α) (records : Records α) (now i : Nat) :
    (s.dispatch records now).sites[i]? = s.sites[i]?.map fun site => { site with
      queue := (Dispatcher.enqueue site.queue (s.delivery.share records now i)).1 } := by
  have hsites : (s.dispatch records now).sites =
      (s.sites.zip (s.delivery.deliver records now { counts := {} }).1.dispatcher.queues).map
        fun p => { p.1 with queue := p.2 } := rfl
  cases hsite : s.sites[i]? with
  | none =>
    have hlength : s.sites.length ≤ i := List.getElem?_eq_none_iff.mp hsite
    rw [Option.map_none, List.getElem?_eq_none_iff, hsites, List.length_map, List.length_zip]
    omega
  | some site =>
    have hsome : s.delivery.dispatcher.queues ≠ [] := by
      simp only [delivery, ne_eq, List.map_eq_nil_iff]
      rintro hnil
      simp [hnil] at hsite
    have hqueue : (s.delivery.deliver records now { counts := {} }).1.dispatcher.queues[i]? =
        some (Dispatcher.enqueue site.queue (s.delivery.share records now i)).1 := by
      rw [Delivery.deliver_queues _ records now hsome, Dispatcher.getElem?_enqueueAll]
      simp [delivery, hsite]
    have hzip := (List.getElem?_zip_eq_some (z := (site, _))).mpr ⟨hsite, hqueue⟩
    rw [hsites, List.getElem?_map, hzip]
    rfl

theorem length_dispatch (s : System α) (records : Records α) (now : Nat) :
    (s.dispatch records now).sites.length = s.sites.length := by
  have hnone : ∀ i, (s.dispatch records now).sites.length ≤ i ↔ s.sites.length ≤ i := by
    intro i
    rw [← List.getElem?_eq_none_iff, getElem?_dispatch, Option.map_eq_none_iff,
      List.getElem?_eq_none_iff]
  exact Nat.le_antisymm ((hnone _).mpr (Nat.le_refl _)) ((hnone _).mp (Nat.le_refl _))

variable {n : Nat} {s : System α}

theorem Owned.dispatch (h : s.Owned n) (records : Records α) (now : Nat) :
    (s.dispatch records now).Owned n := by
  refine ⟨(s.length_dispatch records now).trans h.workers, fun i site hsite => ?_, h.batches⟩
  rw [getElem?_dispatch, Option.map_eq_some_iff] at hsite
  obtain ⟨before, hbefore, rfl⟩ := hsite
  have hshare := s.delivery.share_within records now i
  rw [workers_delivery, h.workers] at hshare
  exact (h.sites i before hbefore).enqueue _ hshare

theorem Owned.modify (h : s.Owned n) (worker : Nat) (f : Site α → Site α)
    (hf : ∀ (site : Site α) (scope : Key → Prop), site.Owns scope → (f site).Owns scope) :
    ({ s with sites := s.sites.modify worker f } : System α).Owned n := by
  refine ⟨by simpa using h.workers, fun i site hsite => ?_, h.batches⟩
  rw [List.getElem?_modify, Option.map_eq_map, Option.map_eq_some_iff] at hsite
  obtain ⟨before, hbefore, rfl⟩ := hsite
  have howns := h.sites i before hbefore
  split
  · exact hf before _ howns
  · exact howns

variable [Number α]

theorem Owned.reports_apart (h : s.Owned n) :
    ((((s.sites.map Site.collected).filterMap Flush.Collected.report).map
      Report.snapshot).Pairwise Snapshot.Apart) := by
  rw [List.pairwise_map, List.pairwise_filterMap, List.pairwise_map, List.pairwise_iff_getElem]
  intro i j hi hj hij p hp q hq
  -- An identity in both reports would be owned by two numbers.
  have hfirst := ((h.sites i _ (List.getElem?_eq_getElem hi)).collected.1 p hp).within
  have hsecond := ((h.sites j _ (List.getElem?_eq_getElem hj)).collected.1 q hq).within
  refine hfirst.apart hsecond fun k hk hother => ?_
  exact absurd (hk.symm.trans hother) (Nat.ne_of_lt hij)

theorem Owned.collect (h : s.Owned n) (thresholds : List α) (interval timestamp : Nat) :
    (s.collect thresholds interval timestamp).Owned n := by
  refine ⟨by simpa [System.collect] using h.workers, fun i site hsite => ?_, fun b hb => ?_⟩
  · simp only [System.collect, List.getElem?_map, Option.map_eq_some_iff] at hsite
    obtain ⟨before, hbefore, rfl⟩ := hsite
    exact (h.sites i before hbefore).collected.2
  · rcases List.mem_append.mp hb with hb | hb
    · exact h.batches b hb
    · obtain rfl := List.mem_singleton.mp hb
      refine Batch.ofSnapshots_increasing _ thresholds interval timestamp (fun p hp => ?_)
        h.reports_apart
      simp only [List.mem_map, List.mem_filterMap, exists_exists_and_eq_and] at hp
      obtain ⟨report, ⟨site, hsite, hreport⟩, rfl⟩ := hp
      obtain ⟨i, hi⟩ := List.mem_iff_getElem?.mp hsite
      exact ((h.sites i site hi).collected.1 report hreport).once

theorem Owned.step (h : s.Owned n) (a : Action α) : (s.step a).Owned n := by
  cases a with
  | dispatch records now => exact h.dispatch records now
  | learn hosts => exact ⟨h.workers, h.sites, h.batches⟩
  | fold worker now => exact h.modify worker _ fun site scope howns => howns.fold now
  | expire worker now => exact h.modify worker _ fun site scope howns => howns.expire now
  | answer worker now => exact h.modify worker _ fun site scope howns => howns.answer now
  | ask drain =>
    refine ⟨by simpa [System.step] using h.workers, fun i site hsite => ?_, h.batches⟩
    simp only [System.step, List.getElem?_map, Option.map_eq_some_iff] at hsite
    obtain ⟨before, hbefore, rfl⟩ := hsite
    exact (h.sites i before hbefore).ask drain
  | collect thresholds interval timestamp => exact h.collect thresholds interval timestamp

theorem Owned.run (h : s.Owned n) (actions : List (Action α)) : (s.run actions).Owned n := by
  induction actions generalizing s with
  | nil => exact h
  | cons a rest ih => exact ih (h.step a)

omit [Number α] in
def Waits (s : System α) (worker : Nat) (m : KeyedMetric α) : Prop :=
  ∃ site ∈ s.sites[worker]?, ∃ share ∈ site.queue.items, m ∈ share.metrics

omit [Number α] in
-- An identity is with a worker: it has an entry there, or a metric in the queue.
def Holds (s : System α) (worker : Nat) (k : Key) : Prop :=
  (∃ m, s.Waits worker m ∧ m.key = k) ∨
    ∃ site ∈ s.sites[worker]?, ∃ e ∈ site.worker.shard.entries, e.key = k

omit [Number α] in
theorem Owned.owner (h : s.Owned n) (worker : Nat) (k : Key) (hk : s.Holds worker k) :
    k.shard n = worker := by
  rcases hk with ⟨m, ⟨site, hsite, share, hshare, hm⟩, rfl⟩ | ⟨site, hsite, e, he, rfl⟩
  · exact ((h.sites worker site hsite).queued share hshare m hm).2
  · exact (h.sites worker site hsite).shard.within e he

omit [Number α] in
theorem Owned.waits (h : s.Owned n) (hn : 0 < n) (records : Records α) (now : Nat) (m : Metric α)
    (hm : m ∈ s.delivery.tagged records now) :
    (s.dispatch records now).Waits (m.key.shard n) m.keyed ∨
      ∃ share ∈ (s.dispatch records now).refused, m.keyed ∈ share.metrics := by
  have hlt : m.key.shard n < s.sites.length := by
    have hlt := m.key.shard_lt n
    rw [h.workers]
    omega
  have hsite := List.getElem?_eq_getElem hlt
  have hshare : m.keyed ∈ (s.delivery.share records now (m.key.shard n)).metrics := by
    rw [Delivery.mem_share, workers_delivery, h.workers]
    exact ⟨List.mem_map_of_mem hm, rfl⟩
  rcases Dispatcher.enqueue_cases s.sites[m.key.shard n].queue
      (s.delivery.share records now (m.key.shard n)) with
    ⟨hempty, -⟩ | ⟨-, r, -, hitems, heq⟩ | ⟨hempty, hoffer, -⟩
  · simp only [Share.isEmpty, Bool.and_eq_true, List.isEmpty_iff] at hempty
    rw [hempty.1] at hshare
    cases hshare
  · refine .inl ⟨_, by rw [getElem?_dispatch, hsite]; rfl, _, ?_, hshare⟩
    simp only [heq, hitems, List.mem_append, List.mem_singleton, or_true]
  · refine .inr ⟨_, List.mem_append_right _ ?_, hshare⟩
    have hqueue : s.delivery.dispatcher.queues[m.key.shard n]? =
        some s.sites[m.key.shard n].queue := by
      simp [delivery, hsite]
    have hrefused := Dispatcher.mem_refusals (s.delivery.share records now) 0 _ _ _ hqueue
    rw [Nat.zero_add] at hrefused
    exact hrefused hempty hoffer

end System

variable [Number α]

theorem one_owner_one_line (c : Config.Aggregation) (starts : List Nat)
    (hosts : Option Hosts.Directory) (hworkers : 0 < starts.length)
    (actions others : List (Action α)) :
    let s := (System.start c starts hosts).run actions
    let t := (System.start c starts hosts).run others
    (∀ records now, ∀ m ∈ s.delivery.tagged records now,
      (∃ worker, (s.dispatch records now).Waits worker m.keyed) ∨
        ∃ share ∈ (s.dispatch records now).refused, m.keyed ∈ share.metrics) ∧
    (∀ i j k l, s.Holds i k → t.Holds j l →
      k.kind = l.kind → k.name = l.name → k.tags = l.tags → i = j) ∧
    ∀ b ∈ s.batches, b.Increasing ∧ b.Once := by
  intro s t
  have hs : s.Owned starts.length := (System.owned_start c starts hosts).run actions
  have ht : t.Owned starts.length := (System.owned_start c starts hosts).run others
  refine ⟨fun records now m hm => ?_, fun i j k l hk hl hkind hname htags => ?_, fun b hb => ?_⟩
  · exact (hs.waits hworkers records now m hm).imp_left fun hwaits => ⟨_, hwaits⟩
  · have hsame : k = l := by
      rw [← Series.key_series k, ← Series.key_series l, Key.series, Key.series, hkind, hname, htags]
    rw [← hs.owner i k hk, ← ht.owner j l hl, hsame]
  · exact ⟨hs.batches b hb, (hs.batches b hb).once⟩

-- Two workers that answer after the end of the cycle, and again in the next one.
def lateReplies : List (Action Binary64) :=
  [.dispatch { metrics := [⟨"hits", .counter 1, 1, .empty, none⟩] } 0, .fold 0 1, .fold 1 1,
    .ask false, .collect [] 10 1, .answer 0 2, .answer 1 2,
    .dispatch { metrics := [⟨"hits", .counter 3, 1, .empty, none⟩] } 3, .fold 0 4, .fold 1 4,
    .ask true, .answer 0 5, .answer 1 5, .collect [] 10 2]

theorem late_replies_one_line :
    let s := (System.start { workers := 2 } [0, 0] none).run lateReplies
    let t := (System.start { workers := 2 } [0, 0] none).run (lateReplies.take 2)
    0 < [0, 0].length ∧
    (∀ records now, ∀ m ∈ s.delivery.tagged records now,
      (∃ worker, (s.dispatch records now).Waits worker m.keyed) ∨
        ∃ share ∈ (s.dispatch records now).refused, m.keyed ∈ share.metrics) ∧
    (∀ i j k l, s.Holds i k → t.Holds j l →
      k.kind = l.kind → k.name = l.name → k.tags = l.tags → i = j) ∧
    ∀ b ∈ s.batches, b.Increasing ∧ b.Once :=
  ⟨by decide, one_owner_one_line { workers := 2 } [0, 0] none (by decide) lateReplies _⟩

end StatsDaemon
