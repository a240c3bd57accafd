import Mathlib
import StatsDaemon.Proofs.Pipeline.Refusal
import StatsDaemon.Proofs.Pipeline.Scope

namespace StatsDaemon.Pipeline

variable {α : Type}

namespace Dispatcher

inductive Takes (q : Queue (Share α)) (share : Share α) : Queue (Share α) → Prop
  | nothing (empty : share.isEmpty = true) : Takes q share q
  | appended (nonempty : share.isEmpty = false) (room : q.hasRoom = true) :
    Takes q share { q with items := q.items ++ [share] }
  | dropped (nonempty : share.isEmpty = false) (full : q.hasRoom = false) : Takes q share q

theorem takes_enqueue (q : Queue (Share α)) (share : Share α) :
    Takes q share (enqueue q share).1 := by
  unfold enqueue
  by_cases hempty : share.isEmpty = true
  · rw [if_pos hempty]
    exact .nothing hempty
  · rw [if_neg hempty]
    have hnonempty := Bool.eq_false_iff.mpr hempty
    unfold Queue.offer?
    by_cases hroom : q.hasRoom = true
    · rw [if_pos hroom]
      exact .appended hnonempty hroom
    · rw [if_neg hroom]
      exact .dropped hnonempty (Bool.eq_false_iff.mpr hroom)

def lost (size : Share α → Nat) (share : Nat → Share α) (queues : List (Queue (Share α))) : Nat :=
  (queues.mapIdx fun worker q => if q.hasRoom then 0 else size (share worker)).sum

theorem lost_cons (size : Share α → Nat) (share : Nat → Share α) (q : Queue (Share α))
    (rest : List (Queue (Share α))) :
    lost size share (q :: rest) =
      (if q.hasRoom then 0 else size (share 0)) + lost size (fun w => share (w + 1)) rest := by
  unfold lost
  rw [List.mapIdx_cons, List.sum_cons]

theorem enqueue_loss (q : Queue (Share α)) (share : Share α) :
    (enqueue q share).2 =
      if q.hasRoom then {} else ⟨share.metrics.length, share.events.length⟩ := by
  by_cases hroom : q.hasRoom = true
  · rcases enqueue_cases q share with ⟨-, heq⟩ | ⟨-, r, -, -, heq⟩ | ⟨-, hoffer, -⟩
    · rw [heq, if_pos hroom]
    · rw [heq, if_pos hroom]
    · rw [Queue.offer?, if_pos hroom] at hoffer
      cases hoffer
  · rw [enqueue_of_full (Bool.eq_false_iff.mpr hroom), if_neg hroom]

theorem enqueueAll_lost (share : Nat → Share α) (worker : Nat) (queues : List (Queue (Share α))) :
    (enqueueAll share worker queues).2 =
      ⟨lost (·.metrics.length) (fun w => share (worker + w)) queues,
        lost (·.events.length) (fun w => share (worker + w)) queues⟩ := by
  induction queues generalizing worker with
  | nil => rfl
  | cons q rest ih =>
    have hshift : ∀ w, worker + 1 + w = worker + (w + 1) := by
      intro w
      omega
    have hrest := ih (worker + 1)
    simp only [hshift] at hrest
    rw [lost_cons, lost_cons]
    simp only [enqueueAll, hrest, enqueue_loss, Loss.add, Nat.add_zero]
    by_cases hroom : q.hasRoom = true
    · simp only [if_pos hroom]
    · simp only [if_neg hroom]

-- The events whose turn it is at a worker, if so many were assigned before.
def turns (workers start worker : Nat) (events : List Event) : List Event :=
  (events.zipIdx.filter fun e => (start + e.2) % 2 ^ 64 % workers == worker).map Prod.fst

theorem assign_eq_map (workers : Nat) {rotation : UInt64} {start place : Nat}
    (hstart : rotation.toNat = (start + place) % 2 ^ 64) (events : List Event) :
    assign workers rotation events =
      (events.zipIdx place).map fun e => ((start + e.2) % 2 ^ 64 % workers, e.1) := by
  induction events generalizing rotation place with
  | nil => rfl
  | cons event rest ih =>
    have hnext : (rotation + 1).toNat = (start + (place + 1)) % 2 ^ 64 := by
      rw [UInt64.toNat_add, hstart]
      change ((start + place) % 2 ^ 64 + 1) % 2 ^ 64 = _
      omega
    rw [assign, ih hnext, List.zipIdx_cons, List.map_cons, hstart]

theorem events_of_assign (metrics : List (KeyedMetric α)) (workers : Nat) (rotation : UInt64)
    (events : List Event) (worker : Nat) :
    (Share.of metrics (assign workers rotation events) workers worker).events =
      turns workers rotation.toNat worker events := by
  have hstart : rotation.toNat = (rotation.toNat + 0) % 2 ^ 64 := by
    rw [Nat.add_zero, Nat.mod_eq_of_lt rotation.toNat_lt]
  unfold Share.of turns
  rw [assign_eq_map workers hstart, List.filter_map, List.map_map]
  rfl

theorem turns_perm {workers : Nat} (busy : 0 < workers) (start : Nat) (events : List Event) :
    ((List.range workers).flatMap fun worker => turns workers start worker events).Perm events := by
  have hperm := (Key.flatMap_filter_perm (fun e : Event × Nat => (start + e.2) % 2 ^ 64 % workers)
    workers events.zipIdx).map Prod.fst
  have hall : events.zipIdx.filter (fun e => (start + e.2) % 2 ^ 64 % workers < workers) =
      events.zipIdx := by
    rw [List.filter_eq_self]
    intro e _
    exact decide_eq_true (Nat.mod_lt _ busy)
  rw [hall, List.zipIdx_map_fst, List.map_flatMap] at hperm
  exact hperm

-- Until the count starts over, a worker gets an event whenever the count is its own number modulo
-- the number of workers.
theorem countP_zipIdx {workers worker : Nat} (hworker : worker < workers) {start place : Nat}
    (events : List Event) (h : start + place + events.length ≤ 2 ^ 64) :
    (events.zipIdx place).countP (fun e => (start + e.2) % 2 ^ 64 % workers == worker) +
        Nat.count (· ≡ worker [MOD workers]) (start + place) =
      Nat.count (· ≡ worker [MOD workers]) (start + place + events.length) := by
  induction events generalizing place with
  | nil =>
    rw [List.zipIdx_nil, List.countP_nil, Nat.zero_add]
    rfl
  | cons event rest ih =>
    rw [List.length_cons] at h
    have hbound : start + (place + 1) + rest.length ≤ 2 ^ 64 := by omega
    have hrest := ih hbound
    have hmod : (start + place) % 2 ^ 64 = start + place := Nat.mod_eq_of_lt (by omega)
    have hturn : ((start + place) % 2 ^ 64 % workers == worker) = true ↔
        start + place ≡ worker [MOD workers] := by
      rw [hmod, beq_iff_eq, Nat.ModEq, Nat.mod_eq_of_lt hworker]
    have hlength : start + (place + 1) + rest.length = start + place + (rest.length + 1) := by
      omega
    rw [← Nat.add_assoc start place 1, Nat.count_succ, Nat.add_assoc start place 1, hlength] at hrest
    rw [List.zipIdx_cons, List.countP_cons, List.length_cons, ← hrest]
    by_cases hmine : start + place ≡ worker [MOD workers]
    · rw [if_pos (hturn.mpr hmine), if_pos hmine]
      omega
    · rw [if_neg (hturn.not.mpr hmine), if_neg hmine]
      omega

theorem length_turns {workers worker : Nat} (hworker : worker < workers) {start : Nat}
    {events : List Event} (h : start + events.length ≤ 2 ^ 64) :
    (turns workers start worker events).length +
        Nat.count (· ≡ worker [MOD workers]) start =
      Nat.count (· ≡ worker [MOD workers]) (start + events.length) := by
  rw [turns, List.length_map, ← List.countP_eq_length_filter]
  exact countP_zipIdx hworker events h

-- The numbers below a bound are spread evenly over the residues.
theorem count_modEq_le {workers : Nat} (busy : 0 < workers) (v w bound : Nat) :
    Nat.count (· ≡ v [MOD workers]) bound ≤ Nat.count (· ≡ w [MOD workers]) bound + 1 := by
  rw [Nat.count_modEq_card bound busy v, Nat.count_modEq_card bound busy w]
  split <;> split <;> omega

end Dispatcher

def Receipt.loss (r : Receipt) : Loss :=
  ⟨r.counts.metricsDropped, r.counts.eventsDropped⟩

theorem Receipt.loss_countRead (r : Receipt) (status : Hosts.CacheStatus) :
    (r.countRead status).loss = r.loss := by
  cases status <;> rfl

namespace Delivery

-- The events of a delivery with the tags of their hosts. They are looked up after the metrics.
def taggedEvents (d : Delivery α) (records : Records α) (now : Nat) : List Event :=
  (enrichEvents (enrichMetrics d.hosts now { counts := {} } records.metrics).1 now
    (enrichMetrics d.hosts now { counts := {} } records.metrics).2.2 records.events).2.1

theorem enrich_receipt (hosts : Option Hosts.Directory) (source : Option String) (tags : Tags)
    (now : Nat) (r s : Receipt) :
    (enrich hosts source tags now r).1 = (enrich hosts source tags now s).1 ∧
    (enrich hosts source tags now r).2.1 = (enrich hosts source tags now s).2.1 ∧
    (enrich hosts source tags now r).2.2.loss = r.loss := by
  cases hosts with
  | none => exact ⟨rfl, rfl, rfl⟩
  | some directory =>
    cases source with
    | none => exact ⟨rfl, rfl, rfl⟩
    | some source => exact ⟨rfl, rfl, Receipt.loss_countRead _ _⟩

section

variable {β : Type} (source : β → Option String) (tags : β → Tags) (retag : β → Tags → β)

def enrichAll (hosts : Option Hosts.Directory) (now : Nat) (receipt : Receipt) :
    List β → Option Hosts.Directory × List β × Receipt
  | [] => (hosts, [], receipt)
  | x :: rest =>
    let (hosts, found, receipt) := enrich hosts (source x) (tags x) now receipt
    let (hosts, rest, receipt) := enrichAll hosts now receipt rest
    (hosts, retag x found :: rest, receipt)

theorem enrichAll_receipt (hosts : Option Hosts.Directory) (now : Nat) (r s : Receipt)
    (items : List β) :
    (enrichAll source tags retag hosts now r items).1 =
      (enrichAll source tags retag hosts now s items).1 ∧
    (enrichAll source tags retag hosts now r items).2.1 =
      (enrichAll source tags retag hosts now s items).2.1 ∧
    (enrichAll source tags retag hosts now r items).2.2.loss = r.loss := by
  induction items generalizing hosts r s with
  | nil => exact ⟨rfl, rfl, rfl⟩
  | cons x rest ih =>
    obtain ⟨hhosts, hfound, hloss⟩ := enrich_receipt hosts (source x) (tags x) now r s
    obtain ⟨hnext, hrest, hmore⟩ := ih (enrich hosts (source x) (tags x) now r).1
      (enrich hosts (source x) (tags x) now r).2.2 (enrich hosts (source x) (tags x) now s).2.2
    simp only [enrichAll]
    refine ⟨?_, ?_, hmore.trans hloss⟩
    · rw [hnext, hhosts]
    · rw [hrest, hhosts, hfound]

theorem forall₂_enrichAll (hosts : Option Hosts.Directory) (now : Nat) (receipt : Receipt)
    (items : List β) :
    List.Forall₂ (fun x tagged => ∃ found, tagged = retag x found) items
      (enrichAll source tags retag hosts now receipt items).2.1 := by
  induction items generalizing hosts receipt with
  | nil => exact .nil
  | cons x rest ih => exact .cons ⟨_, rfl⟩ (ih _ _)

end

theorem enrichMetrics_eq (hosts : Option Hosts.Directory) (now : Nat) (receipt : Receipt)
    (metrics : List (Metric α)) :
    enrichMetrics hosts now receipt metrics =
      enrichAll Metric.source Metric.tags (fun m tags => { m with tags }) hosts now receipt
        metrics := by
  induction metrics generalizing hosts receipt with
  | nil => rfl
  | cons m rest ih => simp only [enrichMetrics, enrichAll, ih]

theorem enrichEvents_eq (hosts : Option Hosts.Directory) (now : Nat) (receipt : Receipt)
    (events : List Event) :
    enrichEvents hosts now receipt events =
      enrichAll Event.source Event.tags (fun e tags => { e with tags }) hosts now receipt
        events := by
  induction events generalizing hosts receipt with
  | nil => rfl
  | cons e rest ih => simp only [enrichEvents, enrichAll, ih]

theorem share_eq (d : Delivery α) (records : Records α) (now : Nat) :
    d.share records now =
      Share.of ((d.tagged records now).map Metric.keyed)
        (Dispatcher.assign d.dispatcher.workers d.dispatcher.rotation (d.taggedEvents records now))
        d.dispatcher.workers :=
  rfl

theorem events_share (d : Delivery α) (records : Records α) (now worker : Nat) :
    (d.share records now worker).events =
      Dispatcher.turns d.dispatcher.workers d.dispatcher.rotation.toNat worker
        (d.taggedEvents records now) := by
  rw [share_eq]
  exact Dispatcher.events_of_assign _ _ _ _ worker

theorem forall₂_tagged (d : Delivery α) (records : Records α) (now : Nat) :
    List.Forall₂ (fun m tagged => ∃ tags, tagged = { m with tags }) records.metrics
      (d.tagged records now) := by
  rw [tagged, enrichMetrics_eq]
  exact forall₂_enrichAll _ _ _ _ _ _ _

theorem forall₂_taggedEvents (d : Delivery α) (records : Records α) (now : Nat) :
    List.Forall₂ (fun e tagged => ∃ tags, tagged = { e with tags }) records.events
      (d.taggedEvents records now) := by
  rw [taggedEvents, enrichEvents_eq]
  exact forall₂_enrichAll _ _ _ _ _ _ _

theorem length_taggedEvents (d : Delivery α) (records : Records α) (now : Nat) :
    (d.taggedEvents records now).length = records.events.length :=
  (d.forall₂_taggedEvents records now).length_eq.symm

theorem deliver_eq (d : Delivery α) (busy : d.dispatcher.queues ≠ []) (records : Records α)
    (now : Nat) (receipt : Receipt) :
    (d.deliver records now receipt).1.dispatcher.queues =
      (Dispatcher.enqueueAll (d.share records now) 0 d.dispatcher.queues).1 ∧
    (d.deliver records now receipt).1.dispatcher.rotation =
      d.dispatcher.rotation + .ofNat records.events.length ∧
    (d.deliver records now receipt).2.loss =
      receipt.loss.add (Dispatcher.enqueueAll (d.share records now) 0 d.dispatcher.queues).2 := by
  have hsome : d.dispatcher.queues.isEmpty = false := by simpa using busy
  obtain ⟨hhosts, hmetrics, hloss⟩ := enrichAll_receipt Metric.source Metric.tags
    (fun (m : Metric α) tags => { m with tags }) d.hosts now receipt { counts := {} }
    records.metrics
  simp only [← enrichMetrics_eq] at hhosts hmetrics hloss
  obtain ⟨-, hevents, hmore⟩ := enrichAll_receipt Event.source Event.tags
    (fun e tags => { e with tags }) (enrichMetrics d.hosts now receipt records.metrics).1 now
    (enrichMetrics d.hosts now receipt records.metrics).2.2
    (enrichMetrics d.hosts now { counts := {} } records.metrics).2.2 records.events
  simp only [← enrichEvents_eq] at hevents hmore
  rw [share_eq, ← length_taggedEvents d records now, tagged, taggedEvents, ← hmetrics, ← hhosts,
    ← hevents, ← hloss, ← hmore]
  unfold deliver Dispatcher.dispatch
  simp only [hsome, Bool.false_eq_true, if_false, true_and]
  rfl

-- What a delivery does with its records, and what it tells.
structure Routed (d : Delivery α) (records : Records α) (now : Nat) (receipt : Receipt)
    (next : Delivery α) (told : Receipt) : Prop where
  workers : next.dispatcher.workers = d.dispatcher.workers
  metrics : List.Forall₂ (fun m tagged => ∃ tags, tagged = { m with tags }) records.metrics
    (d.tagged records now)
  events : List.Forall₂ (fun e tagged => ∃ tags, tagged = { e with tags }) records.events
    (d.taggedEvents records now)
  ownMetrics : ∀ worker, (d.share records now worker).metrics =
    ((d.tagged records now).map Metric.keyed).filter fun m =>
      m.key.shard d.dispatcher.workers == worker
  ownEvents : ∀ worker, (d.share records now worker).events =
    Dispatcher.turns d.dispatcher.workers d.dispatcher.rotation.toNat worker
      (d.taggedEvents records now)
  allMetrics : ((List.range d.dispatcher.workers).flatMap fun worker =>
    (d.share records now worker).metrics).Perm ((d.tagged records now).map Metric.keyed)
  allEvents : ((List.range d.dispatcher.workers).flatMap fun worker =>
    (d.share records now worker).events).Perm (d.taggedEvents records now)
  -- What each queue does depends on this queue and its share alone.
  queues : ∀ worker q, d.dispatcher.queues[worker]? = some q →
    ∃ r, next.dispatcher.queues[worker]? = some r ∧
      Dispatcher.Takes q (d.share records now worker) r
  metricsDropped : told.counts.metricsDropped = receipt.counts.metricsDropped +
    Dispatcher.lost (·.metrics.length) (d.share records now) d.dispatcher.queues
  eventsDropped : told.counts.eventsDropped = receipt.counts.eventsDropped +
    Dispatcher.lost (·.events.length) (d.share records now) d.dispatcher.queues

theorem routed_deliver (d : Delivery α) (busy : d.dispatcher.queues ≠ []) (records : Records α)
    (now : Nat) (receipt : Receipt) :
    d.Routed records now receipt (d.deliver records now receipt).1
      (d.deliver records now receipt).2 := by
  obtain ⟨hqueues, -, hloss⟩ := d.deliver_eq busy records now receipt
  have hworkers : 0 < d.dispatcher.workers := List.length_pos_iff.mpr busy
  rw [Dispatcher.enqueueAll_lost] at hloss
  simp only [Nat.zero_add] at hloss
  constructor
  · rw [Dispatcher.workers, hqueues]
    exact Dispatcher.length_enqueueAll _ 0 _
  · exact d.forall₂_tagged records now
  · exact d.forall₂_taggedEvents records now
  · exact fun _ => rfl
  · exact d.events_share records now
  · exact Key.shares_perm KeyedMetric.key d.dispatcher.workers _ hworkers
  · simp only [events_share]
    exact Dispatcher.turns_perm hworkers _ _
  · intro worker q hq
    refine ⟨(Dispatcher.enqueue q (d.share records now worker)).1, ?_,
      Dispatcher.takes_enqueue q _⟩
    rw [hqueues, Dispatcher.getElem?_enqueueAll, hq, Nat.zero_add]
    rfl
  · exact congrArg Loss.metrics hloss
  · exact congrArg Loss.events hloss

inductive Move (α : Type) where
  | deliver (records : Records α) (now : Nat) (receipt : Receipt)
  | change (worker : Nat) (queue : Queue (Share α))
  | learn (hosts : Option Hosts.Directory)

def step (d : Delivery α) : Move α → Delivery α
  | .deliver records now receipt => (d.deliver records now receipt).1
  | .change worker queue =>
    { d with dispatcher := { d.dispatcher with queues := d.dispatcher.queues.set worker queue } }
  | .learn hosts => { d with hosts }

def Move.events : Move α → Nat
  | .deliver records _ _ => records.events.length
  | .change _ _ | .learn _ => 0

-- How many events a move assigns to a worker, whether there is room for them or not.
def assignedBy (d : Delivery α) (worker : Nat) : Move α → Nat
  | .deliver records now _ => (d.share records now worker).events.length
  | .change _ _ | .learn _ => 0

def assigned (d : Delivery α) (worker : Nat) : List (Move α) → Nat
  | [] => 0
  | move :: rest => d.assignedBy worker move + (d.step move).assigned worker rest

theorem workers_step (d : Delivery α) (busy : d.dispatcher.queues ≠ []) (move : Move α) :
    (d.step move).dispatcher.workers = d.dispatcher.workers := by
  cases move with
  | deliver records now receipt => exact (d.routed_deliver busy records now receipt).workers
  | change worker queue => exact List.length_set
  | learn hosts => rfl

theorem rotation_step (d : Delivery α) (busy : d.dispatcher.queues ≠ []) (move : Move α) :
    (d.step move).dispatcher.rotation = d.dispatcher.rotation + .ofNat move.events := by
  cases move with
  | deliver records now receipt => exact (d.deliver_eq busy records now receipt).2.1
  | change worker queue => exact (UInt64.add_zero _).symm
  | learn hosts => exact (UInt64.add_zero _).symm

theorem assignedBy_add_count (d : Delivery α) {worker : Nat} (hworker : worker < d.dispatcher.workers)
    (move : Move α) (h : d.dispatcher.rotation.toNat + move.events ≤ 2 ^ 64) :
    d.assignedBy worker move +
        Nat.count (· ≡ worker [MOD d.dispatcher.workers]) d.dispatcher.rotation.toNat =
      Nat.count (· ≡ worker [MOD d.dispatcher.workers])
        (d.dispatcher.rotation.toNat + move.events) := by
  cases move with
  | deliver records now receipt =>
    have hlength := d.length_taggedEvents records now
    have hbound : d.dispatcher.rotation.toNat + (d.taggedEvents records now).length ≤ 2 ^ 64 := by
      rw [hlength]
      exact h
    have hturns := Dispatcher.length_turns hworker hbound
    rw [hlength] at hturns
    rw [assignedBy, events_share]
    exact hturns
  | change worker queue => exact Nat.zero_add _
  | learn hosts => exact Nat.zero_add _

theorem assigned_add_count (d : Delivery α) {worker : Nat}
    (hworker : worker < d.dispatcher.workers) (moves : List (Move α))
    (h : d.dispatcher.rotation.toNat + (moves.map Move.events).sum < 2 ^ 64) :
    d.assigned worker moves +
        Nat.count (· ≡ worker [MOD d.dispatcher.workers]) d.dispatcher.rotation.toNat =
      Nat.count (· ≡ worker [MOD d.dispatcher.workers])
        (d.dispatcher.rotation.toNat + (moves.map Move.events).sum) := by
  induction moves generalizing d with
  | nil => exact Nat.zero_add _
  | cons move rest ih =>
    have busy : d.dispatcher.queues ≠ [] := by
      intro hnone
      rw [Dispatcher.workers, hnone] at hworker
      exact Nat.not_lt_zero _ hworker
    rw [List.map_cons, List.sum_cons] at h
    have hworkers := d.workers_step busy move
    have hrotation : (d.step move).dispatcher.rotation.toNat =
        d.dispatcher.rotation.toNat + move.events := by
      rw [d.rotation_step busy move, UInt64.toNat_add, UInt64.toNat_ofNat']
      omega
    have hrest := ih (d.step move)
    rw [hworkers, hrotation] at hrest
    have hmove := d.assignedBy_add_count hworker move (by omega)
    have hnext := hrest hworker (by omega)
    rw [List.map_cons, List.sum_cons, ← Nat.add_assoc, ← hnext, assigned]
    omega

-- A delivery puts the share of each worker into its queue as a whole, or drops and counts it, and
-- in a run from the start all workers get the same number of events, but for one.
theorem deliver_routes (d : Delivery α) (busy : d.dispatcher.queues ≠ []) :
    (∀ records now receipt, d.Routed records now receipt (d.deliver records now receipt).1
      (d.deliver records now receipt).2) ∧
    (d.dispatcher.rotation = 0 → ∀ moves : List (Move α), (moves.map Move.events).sum < 2 ^ 64 →
      ∀ v < d.dispatcher.workers, ∀ w < d.dispatcher.workers,
        d.assigned v moves ≤ d.assigned w moves + 1) := by
  refine ⟨d.routed_deliver busy, ?_⟩
  intro hstart moves hfew v hv w hw
  have hzero : d.dispatcher.rotation.toNat = 0 := by
    rw [hstart]
    rfl
  have hbound : d.dispatcher.rotation.toNat + (moves.map Move.events).sum < 2 ^ 64 := by omega
  have hv' := d.assigned_add_count hv moves hbound
  have hw' := d.assigned_add_count hw moves hbound
  rw [hzero, Nat.count_zero, Nat.zero_add, Nat.add_zero] at hv' hw'
  rw [hv', hw']
  exact Dispatcher.count_modEq_le (Nat.zero_lt_of_lt hv) v w _

def overloaded : Delivery Binary64 :=
  { dispatcher := { queues := [⟨1, [{}], true⟩, ⟨1, [], false⟩, .ofCapacity 2] } }

def arrivals : Records Binary64 :=
  { metrics :=
      [⟨"logins", .counter 1, 1, .empty, none⟩, ⟨"load", .gauge 2, 1, .empty, none⟩]
    events := List.replicate 4 { title := "deploy", text := "done" } }

-- The first worker has made room when the records come again.
theorem overloaded_routes :
    overloaded.dispatcher.queues ≠ [] ∧ overloaded.dispatcher.rotation = 0 ∧
    overloaded.Routed arrivals 0 { counts := {} } (overloaded.deliver arrivals 0 { counts := {} }).1
      (overloaded.deliver arrivals 0 { counts := {} }).2 ∧
    overloaded.assigned 0 [.deliver arrivals 0 { counts := {} }, .change 0 (.ofCapacity 1),
        .deliver arrivals 10 { counts := {} }] ≤
      overloaded.assigned 2 [.deliver arrivals 0 { counts := {} }, .change 0 (.ofCapacity 1),
        .deliver arrivals 10 { counts := {} }] + 1 := by
  have busy : overloaded.dispatcher.queues ≠ [] := List.cons_ne_nil _ _
  obtain ⟨hrouted, heven⟩ := overloaded.deliver_routes busy
  exact ⟨busy, rfl, hrouted arrivals 0 { counts := {} },
    heven rfl _ (by decide) 0 (by decide) 2 (by decide)⟩

end Delivery

end StatsDaemon.Pipeline
