import Mathlib
import StatsDaemon.Pipeline.Delivery
import StatsDaemon.Proofs.Key
import StatsDaemon.Proofs.Pipeline.Amount

namespace StatsDaemon.Pipeline

namespace Dispatcher

variable {α : Type}

def refusals (share : Nat → Share α) : Nat → List (Queue (Share α)) → List (Share α)
  | _, [] => []
  | worker, q :: rest =>
    if (share worker).isEmpty || (q.offer? (share worker)).isSome then
      refusals share (worker + 1) rest
    else share worker :: refusals share (worker + 1) rest

theorem enqueue_cases (q : Queue (Share α)) (share : Share α) :
    (share.isEmpty = true ∧ enqueue q share = (q, {})) ∨
    (share.isEmpty = false ∧ ∃ r, q.offer? share = some r ∧ r.items = q.items ++ [share] ∧
      enqueue q share = (r, {})) ∨
    (share.isEmpty = false ∧ q.offer? share = none ∧
      enqueue q share = (q, ⟨share.metrics.length, share.events.length⟩)) := by
  unfold enqueue
  cases hempty : share.isEmpty with
  | true => exact .inl ⟨rfl, rfl⟩
  | false =>
    cases hoffer : q.offer? share with
    | none => exact .inr (.inr ⟨rfl, rfl, rfl⟩)
    | some r => exact .inr (.inl ⟨rfl, r, rfl, Queue.items_offer hoffer, rfl⟩)

theorem mem_enqueueAll (share : Nat → Share α) (worker : Nat) (queues : List (Queue (Share α)))
    (q : Queue (Share α)) (hq : q ∈ (enqueueAll share worker queues).1) (s : Share α)
    (hs : s ∈ q.items) : (∃ r ∈ queues, s ∈ r.items) ∨ ∃ i, s = share i := by
  induction queues generalizing worker with
  | nil => simp [enqueueAll] at hq
  | cons first rest ih =>
    simp only [enqueueAll, List.mem_cons] at hq
    rcases hq with rfl | hq
    · rcases enqueue_cases first (share worker) with
        ⟨-, heq⟩ | ⟨-, r, -, hitems, heq⟩ | ⟨-, -, heq⟩
      · exact .inl ⟨first, List.mem_cons_self, by simpa [heq] using hs⟩
      · rw [heq, hitems, List.mem_append, List.mem_singleton] at hs
        rcases hs with hs | hs
        · exact .inl ⟨first, List.mem_cons_self, hs⟩
        · exact .inr ⟨worker, hs⟩
      · exact .inl ⟨first, List.mem_cons_self, by simpa [heq] using hs⟩
    · rcases ih (worker + 1) hq with ⟨r, hr, hs⟩ | hs
      · exact .inl ⟨r, List.mem_cons_of_mem _ hr, hs⟩
      · exact .inr hs

end Dispatcher

variable {α : Type} [ExactNumber α]

def Queue.amount (q : Queue (Share α)) (x : Series) : α :=
  (q.items.map (·.amount x)).sum

theorem Share.amount_of_isEmpty (s : Share α) (x : Series) (h : s.isEmpty = true) :
    s.amount x = 0 := by
  obtain ⟨metrics, events⟩ := s
  simp only [isEmpty, Bool.and_eq_true, List.isEmpty_iff] at h
  simp [amount, h.1]

-- What the queues gain and what is refused is what there was in the shares.
theorem Dispatcher.enqueueAll_amount (share : Nat → Share α) (worker : Nat)
    (queues : List (Queue (Share α))) (x : Series) :
    ((enqueueAll share worker queues).1.map (·.amount x)).sum +
        ((refusals share worker queues).map (·.amount x)).sum =
      (queues.map (·.amount x)).sum +
        ((List.range' worker queues.length).map fun i => (share i).amount x).sum := by
  induction queues generalizing worker with
  | nil => simp [enqueueAll, refusals]
  | cons q rest ih =>
    have hrest := ih (worker + 1)
    have hcons : (enqueueAll share worker (q :: rest)).1 =
        (enqueue q (share worker)).1 :: (enqueueAll share (worker + 1) rest).1 := rfl
    rw [hcons, List.length_cons, List.range'_succ]
    simp only [List.map_cons, List.sum_cons]
    rcases enqueue_cases q (share worker) with
      ⟨hempty, heq⟩ | ⟨hempty, r, hoffer, hitems, heq⟩ | ⟨hempty, hoffer, heq⟩
    · have hzero := (share worker).amount_of_isEmpty x hempty
      simp only [refusals, hempty, heq, Bool.true_or, if_true, hzero, zero_add]
      rw [add_assoc, hrest, add_assoc]
    · have hqueue : r.amount x = q.amount x + (share worker).amount x := by
        simp [Queue.amount, hitems]
      simp only [refusals, hempty, hoffer, heq, Option.isSome_some, Bool.or_true, if_true, hqueue]
      rw [add_assoc, hrest]
      abel
    · have hstep : ((enqueueAll share (worker + 1) rest).1.map (·.amount x)).sum +
          ((share worker).amount x +
            ((refusals share (worker + 1) rest).map (·.amount x)).sum) =
          (share worker).amount x + ((rest.map (·.amount x)).sum +
            ((List.range' (worker + 1) rest.length).map fun i => (share i).amount x).sum) := by
        rw [← hrest]
        abel
      simp only [refusals, hempty, hoffer, heq, Option.isSome_none, Bool.or_false,
        Bool.false_eq_true, if_false, List.map_cons, List.sum_cons]
      rw [add_assoc, hstep]
      abel

theorem Share.sum_amount_of (metrics : List (KeyedMetric α)) (events : List (Nat × Event))
    (workers : Nat) (x : Series) (hworkers : 0 < workers) :
    ((List.range workers).map fun i => (Share.of metrics events workers i).amount x).sum =
      (metrics.map (·.amount x)).sum := by
  have hperm := (Key.shares_perm KeyedMetric.key workers metrics hworkers).map (·.amount x)
  rw [← hperm.sum_eq, List.map_flatMap, List.flatMap, List.sum_flatten, List.map_map]
  rfl

namespace Delivery

omit [ExactNumber α] in
def tagged (d : Delivery α) (records : Records α) (now : Nat) : List (Metric α) :=
  (enrichMetrics d.hosts now { counts := {} } records.metrics).2.1

omit [ExactNumber α] in
def share (d : Delivery α) (records : Records α) (now worker : Nat) : Share α :=
  let (hosts, metrics, receipt) := enrichMetrics d.hosts now { counts := {} } records.metrics
  let (_, events, _) := enrichEvents hosts now receipt records.events
  Share.of (metrics.map Metric.keyed)
    (Dispatcher.assign d.dispatcher.workers d.dispatcher.rotation events)
    d.dispatcher.workers worker

omit [ExactNumber α] in
theorem deliver_queues (d : Delivery α) (records : Records α) (now : Nat)
    (hworkers : d.dispatcher.queues ≠ []) :
    (d.deliver records now { counts := {} }).1.dispatcher.queues =
      (Dispatcher.enqueueAll (d.share records now) 0 d.dispatcher.queues).1 := by
  have hsome : d.dispatcher.queues.isEmpty = false := by simpa using hworkers
  simp only [deliver, Dispatcher.dispatch, hsome, Bool.false_eq_true, if_false]
  rfl

omit [ExactNumber α] in
theorem coherent_of_share (d : Delivery α) (records : Records α) (now worker : Nat)
    (m : KeyedMetric α) (hm : m ∈ (d.share records now worker).metrics) : m.Coherent := by
  simp only [share, Share.of, List.mem_filter, List.mem_map] at hm
  obtain ⟨⟨metric, -, rfl⟩, -⟩ := hm
  exact metric.keyed_coherent

theorem deliver_amount (d : Delivery α) (records : Records α) (now : Nat) (x : Series)
    (hworkers : d.dispatcher.queues ≠ []) :
    ((d.deliver records now { counts := {} }).1.dispatcher.queues.map (·.amount x)).sum +
        ((Dispatcher.refusals (d.share records now) 0 d.dispatcher.queues).map (·.amount x)).sum =
      (d.dispatcher.queues.map (·.amount x)).sum +
        ((d.tagged records now).map fun m => m.keyed.amount x).sum := by
  rw [deliver_queues d records now hworkers, Dispatcher.enqueueAll_amount, ← List.range_eq_range']
  congr 1
  have hshares := Share.sum_amount_of ((d.tagged records now).map Metric.keyed)
    (Dispatcher.assign d.dispatcher.workers d.dispatcher.rotation
      (enrichEvents (enrichMetrics d.hosts now { counts := {} } records.metrics).1 now
        (enrichMetrics d.hosts now { counts := {} } records.metrics).2.2 records.events).2.1)
    d.dispatcher.workers x (List.length_pos_iff.mpr hworkers)
  rw [List.map_map] at hshares
  exact hshares

end Delivery

end StatsDaemon.Pipeline
