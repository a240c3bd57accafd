import Mathlib
import StatsDaemon.Proofs.Pipeline.System
import StatsDaemon.Proofs.Shard.Owned

namespace StatsDaemon

open Pipeline

variable {α : Type}

def Pipeline.Share.Within (scope : Key → Prop) (share : Share α) : Prop :=
  ∀ m ∈ share.metrics, m.Coherent ∧ scope m.key

namespace Pipeline

theorem Dispatcher.getElem?_enqueueAll (share : Nat → Share α) (worker : Nat)
    (queues : List (Queue (Share α))) (i : Nat) :
    (enqueueAll share worker queues).1[i]? =
      queues[i]?.map fun q => (enqueue q (share (worker + i))).1 := by
  induction queues generalizing worker i with
  | nil => rfl
  | cons q rest ih =>
    cases i with
    | zero => rfl
    | succ i =>
      have hnext : worker + 1 + i = worker + (i + 1) := by omega
      simpa only [enqueueAll, List.getElem?_cons_succ, hnext] using ih (worker + 1) i

theorem Dispatcher.mem_refusals (share : Nat → Share α) (worker : Nat)
    (queues : List (Queue (Share α))) (i : Nat) (q : Queue (Share α)) (hq : queues[i]? = some q)
    (hempty : (share (worker + i)).isEmpty = false)
    (hoffer : q.offer? (share (worker + i)) = none) :
    share (worker + i) ∈ refusals share worker queues := by
  induction queues generalizing worker i with
  | nil => simp at hq
  | cons first rest ih =>
    cases i with
    | zero =>
      obtain rfl := Option.some.inj hq
      rw [Nat.add_zero] at hempty hoffer
      simp [refusals, hempty, hoffer]
    | succ i =>
      have hnext : worker + 1 + i = worker + (i + 1) := by omega
      have hrest := ih (worker + 1) i hq (hnext ▸ hempty) (hnext ▸ hoffer)
      rw [hnext] at hrest
      unfold refusals
      split
      · exact hrest
      · exact List.mem_cons_of_mem _ hrest

theorem Delivery.mem_share (d : Delivery α) (records : Records α) (now worker : Nat)
    (m : KeyedMetric α) :
    m ∈ (d.share records now worker).metrics ↔
      m ∈ (d.tagged records now).map Metric.keyed ∧ m.key.shard d.dispatcher.workers = worker := by
  simp only [share, Share.of, tagged, List.mem_filter, beq_iff_eq]

theorem Delivery.share_within (d : Delivery α) (records : Records α) (now worker : Nat) :
    (d.share records now worker).Within fun k => k.shard d.dispatcher.workers = worker :=
  fun m hm => ⟨d.coherent_of_share records now worker m hm,
    ((d.mem_share records now worker m).mp hm).2⟩

end Pipeline

namespace Worker

variable [Number α] {w : Worker α} {scope : Key → Prop}

theorem addMetric_owns (h : w.shard.Owns scope) (m : KeyedMetric α) (now : Nat)
    (hm : m.Coherent ∧ scope m.key) : (w.addMetric m now).1.shard.Owns scope := by
  obtain ⟨shard, hmerge, howns⟩ := h.merge m now hm.1 hm.2
  simp only [addMetric, hmerge]
  exact howns

omit [Number α] in
theorem addEvent_owns (h : w.shard.Owns scope) (e : Event) :
    (w.addEvent e).1.shard.Owns scope := by
  have hshard : (w.addEvent e).1.shard = (w.shard.addEvent e).1 := by
    unfold Worker.addEvent
    split <;> rename_i heq <;> rw [heq]
  exact hshard ▸ h.addEvent e

def KeepsOwn (scope : Key → Prop) (w : Worker α) (metrics : List (KeyedMetric α))
    (next : Worker α) : Prop :=
  (∀ m ∈ metrics, m.Coherent ∧ scope m.key) → w.shard.Owns scope → next.shard.Owns scope

omit [Number α] in
theorem KeepsOwn.trans {w middle next : Worker α} {metrics more : List (KeyedMetric α)}
    (h : KeepsOwn scope w metrics middle) (hnext : KeepsOwn scope middle more next) :
    KeepsOwn scope w (metrics ++ more) next := by
  intro hmetrics howns
  obtain ⟨hfirst, hmore⟩ := List.forall_mem_append.mp hmetrics
  exact hnext hmore (h hfirst howns)

theorem addMetric_keepsOwn (now : Nat) (w : Worker α) (m : KeyedMetric α) :
    KeepsOwn scope w [m] (w.addMetric m now).1 :=
  fun hm h => addMetric_owns h m now (hm m List.mem_cons_self)

omit [Number α] in
theorem addEvent_keepsOwn (w : Worker α) (e : Event) : KeepsOwn scope w [] (w.addEvent e).1 :=
  fun _ h => addEvent_owns h e

theorem handleShare_owns (h : w.shard.Owns scope) (share : Share α) (now : Nat)
    (hshare : share.Within scope) : (w.handleShare share now).1.shard.Owns scope :=
  handleShare_of (R := KeepsOwn scope) (fun _ _ h => h) KeepsOwn.trans (addMetric_keepsOwn now)
    addEvent_keepsOwn w share hshare h

theorem handleShares_owns (h : w.shard.Owns scope) (shares : List (Share α)) (now : Nat)
    (hshares : ∀ share ∈ shares, share.Within scope) :
    (w.handleShares shares now).1.shard.Owns scope :=
  handleShares_of (R := KeepsOwn scope) (fun _ _ h => h) KeepsOwn.trans (addMetric_keepsOwn now)
    addEvent_keepsOwn w shares (List.forall_mem_flatMap.mpr hshares) h

omit [Number α] in
theorem expireStep_owns (h : w.shard.Owns scope) (now : Nat) :
    (w.expireStep now).1.shard.Owns scope :=
  h.expireChunk now w.scanChunk

theorem handleFlush_owns (h : w.shard.Owns scope) (q : Queue (Share α)) (drain : Bool) (now : Nat)
    (hq : ∀ share ∈ q.items, share.Within scope) :
    (w.handleFlush q drain now).1.shard.Owns scope ∧
    (∀ share ∈ (w.handleFlush q drain now).2.1.items, share.Within scope) ∧
    (w.handleFlush q drain now).2.2.1.snapshot.Owned scope := by
  cases drain with
  | false => exact ⟨h.snapshot now, hq, h.report now⟩
  | true =>
    have hdrained := handleShares_owns h q.items now hq
    exact ⟨hdrained.snapshot now, fun _ hshare => (nomatch hshare), hdrained.report now⟩

end Worker

theorem Request.mem_fill (report : Report α) (requests : List (Request α)) (r : Request α)
    (hr : r ∈ fill report requests) : r ∈ requests ∨ r.reply = some report := by
  induction requests with
  | nil => cases hr
  | cons first rest ih =>
    unfold fill at hr
    split at hr
    · rcases List.mem_cons.mp hr with rfl | hr
      · exact .inr rfl
      · exact .inl (List.mem_cons_of_mem _ hr)
    · rcases List.mem_cons.mp hr with rfl | hr
      · exact .inl List.mem_cons_self
      · exact (ih hr).imp_left (List.mem_cons_of_mem _)

theorem Flush.collect_owned [Number α] {scope : Key → Prop} (requests : List (Request α))
    (report : Option (Report α)) (hreport : ∀ p ∈ report, p.snapshot.Owned scope)
    (h : ∀ r ∈ requests, ∀ p ∈ r.reply, p.snapshot.Owned scope) :
    (∀ p ∈ (collect Request.answer report requests).report, p.snapshot.Owned scope) ∧
    ∀ r ∈ (collect Request.answer report requests).requests, r ∈ requests := by
  induction requests generalizing report with
  | nil => exact ⟨hreport, fun _ hr => hr⟩
  | cons r rest ih =>
    obtain ⟨hfirst, hrest⟩ := List.forall_mem_cons.mp h
    unfold collect
    cases hr : r.reply with
    | none =>
      simp only [Request.answer, hr]
      exact ⟨hreport, fun _ hmem => hmem⟩
    | some later =>
      simp only [Request.answer, hr]
      have hlater := hfirst later hr
      have hadded : ∀ p ∈ some (addReport report later), p.snapshot.Owned scope := by
        intro p hp
        obtain rfl := Option.some.inj hp
        cases report with
        | none => exact hlater
        | some earlier => exact (hreport earlier rfl).merge hlater
      obtain ⟨hcollected, hkept⟩ := ih _ hadded hrest
      exact ⟨hcollected, fun q hq => List.mem_cons_of_mem _ (hkept q hq)⟩

namespace Site

structure Owns (site : Site α) (scope : Key → Prop) : Prop where
  shard : site.worker.shard.Owns scope
  queued : ∀ share ∈ site.queue.items, share.Within scope
  replies : ∀ r ∈ site.requests, ∀ p ∈ r.reply, p.snapshot.Owned scope

theorem owns_start (c : Config.Aggregation) (now : Nat) (scope : Key → Prop) :
    (start c now : Site α).Owns scope :=
  ⟨⟨Shard.sound_nil, fun _ he => (nomatch he)⟩, fun _ hshare => (nomatch hshare),
    fun _ hr => (nomatch hr)⟩

variable [Number α] {site : Site α} {scope : Key → Prop}

theorem Owns.fold (h : site.Owns scope) (now : Nat) : (site.fold now).Owns scope := by
  unfold Site.fold
  split
  · exact ⟨h.shard, h.queued, h.replies⟩
  · rename_i share rest hitems
    have hqueued := h.queued
    rw [hitems] at hqueued
    obtain ⟨hshare, hrest⟩ := List.forall_mem_cons.mp hqueued
    exact ⟨Worker.handleShare_owns h.shard share now hshare, hrest, h.replies⟩

omit [Number α] in
theorem Owns.expire (h : site.Owns scope) (now : Nat) : (site.expire now).Owns scope :=
  ⟨Worker.expireStep_owns h.shard now, h.queued, h.replies⟩

theorem Owns.answer (h : site.Owns scope) (now : Nat) : (site.answer now).Owns scope := by
  unfold Site.answer
  split
  · exact ⟨h.shard, h.queued, h.replies⟩
  · rename_i request hrequest
    obtain ⟨hshard, hqueued, hreport⟩ :=
      Worker.handleFlush_owns h.shard site.queue request.drain now h.queued
    refine ⟨hshard, hqueued, fun r hr p hp => ?_⟩
    rcases Request.mem_fill _ _ r hr with hr | hfilled
    · exact h.replies r hr p hp
    · obtain rfl := Option.some.inj (hfilled.symm.trans hp)
      exact hreport

omit [Number α] in
theorem Owns.ask (h : site.Owns scope) (drain : Bool) : (site.ask drain).Owns scope := by
  refine ⟨h.shard, h.queued, fun r hr p hp => ?_⟩
  rcases List.mem_append.mp hr with hr | hr
  · exact h.replies r hr p hp
  · obtain rfl := List.mem_singleton.mp hr
    cases hp

omit [Number α] in
theorem Owns.enqueue (h : site.Owns scope) (share : Share α) (hshare : share.Within scope) :
    ({ site with queue := (Dispatcher.enqueue site.queue share).1 } : Site α).Owns scope := by
  refine ⟨h.shard, fun other hother => ?_, h.replies⟩
  rcases Dispatcher.enqueue_cases site.queue share with
    ⟨-, heq⟩ | ⟨-, r, -, hitems, heq⟩ | ⟨-, -, heq⟩
  · exact h.queued other (by simpa only [heq] using hother)
  · simp only [heq, hitems, List.mem_append, List.mem_singleton] at hother
    rcases hother with hother | rfl
    · exact h.queued other hother
    · exact hshare
  · exact h.queued other (by simpa only [heq] using hother)

theorem Owns.collected (h : site.Owns scope) :
    (∀ p ∈ site.collected.report, p.snapshot.Owned scope) ∧
    ({ site with requests := site.collected.requests } : Site α).Owns scope := by
  obtain ⟨hreport, hkept⟩ :=
    Flush.collect_owned site.requests none (fun _ hp => nomatch hp) h.replies
  exact ⟨hreport, h.shard, h.queued, fun r hr => h.replies r (hkept r hr)⟩

end Site

end StatsDaemon
