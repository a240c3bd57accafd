import Mathlib
import StatsDaemon.Pipeline.Intake
import StatsDaemon.Proofs.Line.Reports
import StatsDaemon.Proofs.Pipeline.Dispatch

namespace StatsDaemon.Pipeline

namespace Delivery

variable {α : Type}

theorem enrich_none (hosts : Option Hosts.Directory) (tags : Tags) (now : Nat) (receipt : Receipt) :
    enrich hosts none tags now receipt = (hosts, tags, receipt) := by
  cases hosts <;> rfl

theorem enrichMetrics_of_source (hosts : Option Hosts.Directory) (now : Nat) (receipt : Receipt)
    {metrics : List (Metric α)} (h : ∀ m ∈ metrics, m.source = none) :
    enrichMetrics hosts now receipt metrics = (hosts, metrics, receipt) := by
  induction metrics with
  | nil => rfl
  | cons m rest ih =>
    obtain ⟨hm, hrest⟩ := List.forall_mem_cons.mp h
    have henrich : enrich hosts m.source m.tags now receipt = (hosts, m.tags, receipt) := by
      rw [hm, enrich_none]
    simp only [enrichMetrics, henrich, ih hrest]

theorem enrichEvents_of_source (hosts : Option Hosts.Directory) (now : Nat) (receipt : Receipt)
    {events : List Event} (h : ∀ e ∈ events, e.source = none) :
    enrichEvents hosts now receipt events = (hosts, events, receipt) := by
  induction events with
  | nil => rfl
  | cons e rest ih =>
    obtain ⟨he, hrest⟩ := List.forall_mem_cons.mp h
    have henrich : enrich hosts e.source e.tags now receipt = (hosts, e.tags, receipt) := by
      rw [he, enrich_none]
    simp only [enrichEvents, henrich, ih hrest]

end Delivery

namespace Dispatcher

variable {α : Type}

theorem enqueue_of_full {q : Queue (Share α)} (full : q.hasRoom = false) (share : Share α) :
    enqueue q share = (q, ⟨share.metrics.length, share.events.length⟩) := by
  rcases enqueue_cases q share with ⟨hempty, heq⟩ | ⟨-, r, hoffer, -, -⟩ | ⟨-, -, heq⟩
  · simp only [Share.isEmpty, Bool.and_eq_true, List.isEmpty_iff] at hempty
    rw [heq, hempty.1, hempty.2]
    rfl
  · rw [Queue.offer?, full] at hoffer
    cases hoffer
  · exact heq

theorem enqueueAll_of_full (share : Nat → Share α) (worker : Nat) {queues : List (Queue (Share α))}
    (full : ∀ q ∈ queues, q.hasRoom = false) :
    enqueueAll share worker queues = (queues,
      ⟨((List.range' worker queues.length).map fun i => (share i).metrics.length).sum,
        ((List.range' worker queues.length).map fun i => (share i).events.length).sum⟩) := by
  induction queues generalizing worker with
  | nil => rfl
  | cons q rest ih =>
    obtain ⟨hq, hrest⟩ := List.forall_mem_cons.mp full
    simp only [enqueueAll, enqueue_of_full hq, ih (worker + 1) hrest, Loss.add, List.length_cons,
      List.range'_succ, List.map_cons, List.sum_cons]

theorem length_assign (workers : Nat) (rotation : UInt64) (events : List Event) :
    (assign workers rotation events).length = events.length := by
  induction events generalizing rotation with
  | nil => rfl
  | cons event rest ih => simp only [assign, List.length_cons, ih]

theorem lt_of_mem_assign {workers : Nat} (busy : 0 < workers) {rotation : UInt64}
    {events : List Event} : ∀ e ∈ assign workers rotation events, e.1 < workers := by
  induction events generalizing rotation with
  | nil => exact fun _ h => absurd h List.not_mem_nil
  | cons event rest ih => exact List.forall_mem_cons.mpr ⟨Nat.mod_lt _ busy, ih⟩

theorem dispatch_of_full (d : Dispatcher α) (full : ∀ q ∈ d.queues, q.hasRoom = false)
    (busy : d.queues ≠ []) (metrics : List (KeyedMetric α)) (events : List Event) :
    (d.dispatch metrics events).1.queues = d.queues ∧
      (d.dispatch metrics events).2 = ⟨metrics.length, events.length⟩ := by
  have hworkers : 0 < d.workers := List.length_pos_iff.mpr busy
  have hmetrics := (Key.shares_perm KeyedMetric.key d.workers metrics hworkers).length_eq
  have hevents := (Key.flatMap_filter_perm Prod.fst d.workers
    (assign d.workers d.rotation events)).length_eq
  rw [List.filter_eq_self.mpr fun e he => decide_eq_true (lt_of_mem_assign hworkers e he),
    length_assign] at hevents
  rw [List.length_flatMap] at hmetrics hevents
  have hbusy : d.queues.isEmpty = false := by simpa using busy
  simp only [dispatch, hbusy, Bool.false_eq_true, if_false, enqueueAll_of_full _ 0 full,
    ← List.range_eq_range', Share.of, List.length_map, true_and]
  exact congrArg₂ Loss.mk hmetrics hevents

end Dispatcher

namespace Delivery

variable {α : Type}

theorem deliver_of_full (d : Delivery α) (full : ∀ q ∈ d.dispatcher.queues, q.hasRoom = false)
    (busy : d.dispatcher.queues ≠ []) {records : Records α}
    (metrics : ∀ m ∈ records.metrics, m.source = none)
    (events : ∀ e ∈ records.events, e.source = none) (now : Nat) (receipt : Receipt) :
    (d.deliver records now receipt).1.dispatcher.queues = d.dispatcher.queues ∧
      (d.deliver records now receipt).2 =
        receipt.countLoss ⟨records.metrics.length, records.events.length⟩ := by
  have hbusy : d.dispatcher.queues.isEmpty = false := by simpa using busy
  obtain ⟨hqueues, hloss⟩ :=
    d.dispatcher.dispatch_of_full full busy (records.metrics.map Metric.keyed) records.events
  simp only [deliver, hbusy, Bool.false_eq_true, if_false, enrichMetrics_of_source _ _ _ metrics,
    enrichEvents_of_source _ _ _ events, hqueues, hloss, List.length_map, and_self]

end Delivery

namespace Intake

theorem source_of_recordsOf (rules : Line.Rules) (data : List UInt8) :
    (∀ m ∈ (recordsOf (Line.readAll rules none data)).metrics, m.source = none) ∧
      ∀ e ∈ (recordsOf (Line.readAll rules none data)).events, e.source = none := by
  constructor
  · intro m hm
    obtain ⟨result, hresult, heq⟩ := List.mem_filterMap.mp hm
    split at heq
    · cases heq
      exact Line.source_of_readAll hresult
    · cases heq
  · intro e he
    obtain ⟨result, hresult, heq⟩ := List.mem_filterMap.mp he
    split at heq
    · cases heq
      exact Line.source_of_readAll hresult
    · cases heq

def ownRecords (packet : List UInt8) : Nat :=
  let records := recordsOf (Line.readAll ownRules none packet)
  records.metrics.length + records.events.length

theorem length_recordsOf_le (results : List (Except Line.Fault Line.Record)) :
    (recordsOf results).metrics.length + (recordsOf results).events.length ≤ results.length := by
  induction results with
  | nil => simp [recordsOf]
  | cons result rest ih =>
    simp only [recordsOf, List.filterMap_cons, List.length_cons] at ih ⊢
    match result with
    | .ok (.metric m) => simp only [List.length_cons]; omega
    | .ok (.event e) => simp only [List.length_cons]; omega
    | .error fault => simp only; omega

theorem ownRecords_le (packet : List UInt8) : ownRecords packet ≤ packet.length + 1 := by
  have hresults := length_recordsOf_le (Line.readAll ownRules none packet)
  have hlines := List.length_filterMap_le (Line.readBytes ownRules none)
    (Text.pieces Line.lineBreak packet)
  rw [Text.length_pieces] at hlines
  exact hresults.trans (hlines.trans (Nat.succ_le_succ List.count_le_length))

-- How many records of a packet are lost if no queue has room. Without workers none is looked at.
def lostRecords (d : Delivery Binary64) (packet : List UInt8) : Nat :=
  if d.dispatcher.queues = [] then 0 else ownRecords packet

theorem receiveOwn_of_full (d : Delivery Binary64)
    (full : ∀ q ∈ d.dispatcher.queues, q.hasRoom = false) (packet : List UInt8) (now : Nat) :
    (receiveOwn d packet now).1.dispatcher.queues = d.dispatcher.queues ∧
      (receiveOwn d packet now).2 =
        if 0 < lostRecords d packet then [Telemetry.ownMetricsDropped (lostRecords d packet)]
        else [] := by
  by_cases idle : d.dispatcher.queues = []
  · simp [receiveOwn, Delivery.deliver, lostRecords, idle]
  · obtain ⟨hmetrics, hevents⟩ := source_of_recordsOf ownRules packet
    obtain ⟨hqueues, hreceipt⟩ := d.deliver_of_full full idle hmetrics hevents now { counts := {} }
    refine ⟨hqueues, ?_⟩
    simp only [receiveOwn, hreceipt, Receipt.countLoss, Nat.zero_add, List.nil_append, lostRecords,
      if_neg idle]
    rfl

end Intake

end StatsDaemon.Pipeline
