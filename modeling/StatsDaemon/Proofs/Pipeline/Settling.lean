import Mathlib
import StatsDaemon.Proofs.Line.Isolation
import StatsDaemon.Proofs.Pipeline.Calls

namespace StatsDaemon

namespace Line

def isCounted (line : List UInt8) : Bool :=
  !(line == [] || line == [13])

theorem readBytes_eq_none_iff (rules : Rules) (source : Option String) (line : List UInt8) :
    readBytes rules source line = none ↔ line = [] ∨ line = [13] := by
  constructor
  · intro unread
    rcases decoded : Text.decode? line with _ | text
    case none => simp [readBytes, decoded] at unread
    obtain rfl := Text.decode?_eq_some_iff.mp decoded
    rw [readBytes_encode] at unread
    have blank : dropReturn text = [] := by simpa using unread
    by_cases last : text.getLast? = some '\r'
    · obtain ⟨kept, rfl⟩ := List.getLast?_eq_some_iff.mp last
      rw [dropReturn_append_return] at blank
      subst blank
      exact .inr encode_return
    · rw [dropReturn_of_ne last] at blank
      exact .inl (blank ▸ Text.encode_eq_flatMap [])
  · rintro (rfl | rfl)
    · rw [← show Text.encode [] = [] from Text.encode_eq_flatMap [], readBytes_encode]
      rfl
    · rw [← encode_return, readBytes_encode]
      rfl

-- There is one result for every line that is counted.
theorem length_readAll (rules : Rules) (source : Option String) (data : List UInt8) :
    (readAll rules source data).length = ((Text.pieces lineBreak data).filter isCounted).length := by
  have counted (line : List UInt8) : (readBytes rules source line).isSome = isCounted line := by
    rw [Bool.eq_iff_iff, ← Option.ne_none_iff_isSome, ne_eq, readBytes_eq_none_iff]
    simp [isCounted]
  rw [readAll, List.length_filterMap_eq_countP, List.countP_eq_length_filter]
  simp only [counted]

end Line

namespace Pipeline

def countedLines (batch : List Datagram) : Nat :=
  (batch.map fun d => ((Text.pieces Line.lineBreak d.data).filter Line.isCounted).length).sum

theorem Program.length_results (rules : Line.Rules) (batch : List Datagram) :
    (results rules batch).length = countedLines batch := by
  simp only [results, countedLines, List.length_flatMap, Line.length_readAll]

def Share.metricCount (share : Share Binary64) : Nat :=
  share.metrics.length

def Share.eventCount (share : Share Binary64) : Nat :=
  share.events.length

-- What one call has done: what it has counted, and the shares that the queues have taken from it.
structure Deeds where
  counts : Counts := {}
  shares : List (Share Binary64) := []

namespace Deeds

def enqueued (d : Deeds) (size : Share Binary64 → Nat) : Nat :=
  (d.shares.map size).sum

def count (d : Deeds) (counter : Counter) (amount : Nat) : Deeds :=
  { d with counts := d.counts.add counter amount }

def countFault (d : Deeds) (fault : Line.Fault) : Deeds :=
  { d with counts := d.counts.addBadLine fault.label }

def enqueue (d : Deeds) (share : Share Binary64) : Deeds :=
  { d with shares := d.shares ++ [share] }

theorem counts_enqueue (d : Deeds) (share : Share Binary64) : (d.enqueue share).counts = d.counts :=
  rfl

theorem enqueued_count (d : Deeds) (counter : Counter) (amount : Nat)
    (size : Share Binary64 → Nat) : (d.count counter amount).enqueued size = d.enqueued size :=
  rfl

theorem enqueued_enqueue (d : Deeds) (share : Share Binary64) (size : Share Binary64 → Nat) :
    (d.enqueue share).enqueued size = d.enqueued size + size share := by
  simp [enqueued, enqueue]

-- The counts of a call that has counted so many lines balance, but for so many metrics and events
-- that are neither queued nor dropped.
structure Owing (lines metrics events : Nat) (d : Deeds) : Prop where
  lines : d.counts.lines = lines
  records : d.counts.lines = d.counts.metrics + d.counts.events + d.counts.totalBadLines
  metrics : d.counts.metrics = d.enqueued Share.metricCount + d.counts.metricsDropped + metrics
  events : d.counts.events = d.enqueued Share.eventCount + d.counts.eventsDropped + events

abbrev Balanced (lines : Nat) : Deeds → Prop :=
  Owing lines 0 0

end Deeds

namespace Program

def deed (s : Commons) : Program → Deeds → Deeds
  | .count counter amount _, d => d.count counter amount
  | .countFault fault _, d => d.countFault fault
  | .offer worker share _, d => if (s.offer worker share).1 then d.enqueue share else d
  | .done, d | .logFault _ _, d | .log _ _, d | .lookUp _ _ _, d | .turn _, d => d

-- Whatever the call sees, it has done in the end what the goal says.
def Settles (goal : Deeds → Prop) : Program → Deeds → Prop
  | .done, d => goal d
  | .count counter amount next, d => next.Settles goal (d.count counter amount)
  | .countFault fault next, d => next.Settles goal (d.countFault fault)
  | .logFault _ next, d => next.Settles goal d
  | .log _ next, d => next.Settles goal d
  | .lookUp _ _ next, d => ∀ status tags, (next status tags).Settles goal d
  | .turn next, d => ∀ number, (next number).Settles goal d
  | .offer _ share next, d =>
    (next true).Settles goal (d.enqueue share) ∧ (next false).Settles goal d

theorem Settles.step {goal : Deeds → Prop} {p : Program} {d : Deeds} (h : p.Settles goal d)
    (now : Nat) (s : Commons) : (step now (p, s)).1.Settles goal (p.deed s d) := by
  cases p with
  | lookUp source tags next => exact h _ _
  | turn next => exact h _
  | offer worker share next =>
    simp only [Program.step, deed]
    cases (s.offer worker share).1 with
    | true => exact h.1
    | false => exact h.2
  | _ => exact h

variable {lines : Nat}

theorem settles_offerAll (share : Nat → Share Binary64) (workers : List Nat) (d : Deeds)
    (h : d.Owing lines (workers.map fun i => (share i).metrics.length).sum
      (workers.map fun i => (share i).events.length).sum) :
    (offerAll share workers).Settles (Deeds.Balanced lines) d := by
  induction workers generalizing d with
  | nil => exact h
  | cons worker rest ih =>
    obtain ⟨lines, records, metrics, events⟩ := h
    simp only [List.map_cons, List.sum_cons] at metrics events
    rw [offerAll]
    split
    case isTrue empty =>
      simp only [Share.isEmpty, Bool.and_eq_true, List.isEmpty_iff] at empty
      simp only [empty, List.length_nil, Nat.zero_add] at metrics events
      exact ih d ⟨lines, records, metrics, events⟩
    case isFalse =>
      constructor
      · refine ih _ ⟨lines, records, ?_, ?_⟩ <;>
          simp only [Deeds.enqueued_enqueue, Deeds.counts_enqueue, Share.metricCount,
            Share.eventCount] <;>
          omega
      · refine ih _ ⟨lines, records, ?_, ?_⟩ <;>
          simp only [Deeds.enqueued_count] <;>
          simp only [Deeds.count, Counts.add, Counts.set, Counts.get] <;>
          omega

theorem settles_shares (workers : Nat) (busy : 0 < workers)
    (metrics : List (KeyedMetric Binary64)) (events : List (Nat × Event))
    (placed : ∀ e ∈ events, e.1 < workers) (d : Deeds)
    (h : d.Owing lines metrics.length events.length) :
    (offerAll (Share.of metrics events workers) (List.range workers)).Settles
      (Deeds.Balanced lines) d := by
  have allMetrics :=
    (Key.shares_perm KeyedMetric.key workers metrics busy).length_eq
  have allEvents := (Key.flatMap_filter_perm Prod.fst workers events).length_eq
  rw [List.filter_eq_self.mpr (by simpa using placed)] at allEvents
  rw [List.length_flatMap] at allMetrics allEvents
  apply settles_offerAll
  simpa only [Share.of, List.length_map, allMetrics, allEvents] using h

variable {goal : Deeds → Prop} {metricsOwed eventsOwed : Nat}

theorem settles_countLookUp (status : Option Hosts.CacheStatus) (next : Program) (d : Deeds)
    (h : d.Owing lines metricsOwed eventsOwed)
    (settles : ∀ d : Deeds, d.Owing lines metricsOwed eventsOwed → next.Settles goal d) :
    (countLookUp status next).Settles goal d := by
  match status with
  | none => exact settles d h
  | some .miss | some .hit | some .negative =>
    exact settles _ ⟨h.lines, h.records, h.metrics, h.events⟩

theorem settles_tagMetrics (next : List (KeyedMetric Binary64) → Program)
    (metrics : List (Metric Binary64)) (keyed : List (KeyedMetric Binary64)) (d : Deeds)
    (h : d.Owing lines metricsOwed eventsOwed)
    (settles : ∀ (tagged : List (KeyedMetric Binary64)) (d : Deeds),
      tagged.length = keyed.length + metrics.length → d.Owing lines metricsOwed eventsOwed →
        (next tagged).Settles goal d) :
    (tagMetrics next metrics keyed).Settles goal d := by
  induction metrics generalizing keyed d with
  | nil => exact settles keyed d rfl h
  | cons m rest ih =>
    intro status tags
    refine settles_countLookUp status _ d h fun d h => ih _ d h fun tagged d length h => ?_
    refine settles tagged d ?_ h
    simp only [List.length_append, List.length_singleton] at length
    rw [length, List.length_cons]
    omega

theorem settles_tagEvents (workers : Nat) (busy : 0 < workers)
    (next : List (Nat × Event) → Program) (events : List Event) (assigned : List (Nat × Event))
    (placed : ∀ e ∈ assigned, e.1 < workers) (d : Deeds)
    (h : d.Owing lines metricsOwed eventsOwed)
    (settles : ∀ (all : List (Nat × Event)) (d : Deeds),
      all.length = assigned.length + events.length → (∀ e ∈ all, e.1 < workers) →
        d.Owing lines metricsOwed eventsOwed → (next all).Settles goal d) :
    (tagEvents workers next events assigned).Settles goal d := by
  induction events generalizing assigned d with
  | nil => exact settles assigned d rfl placed h
  | cons e rest ih =>
    intro status tags
    refine settles_countLookUp status _ d h fun d h => fun number => ih _ ?_ d h ?_
    · intro e he
      obtain old | rfl := List.mem_append.mp he |>.imp_right List.mem_singleton.mp
      · exact placed e old
      · exact Nat.mod_lt _ busy
    · intro all d length allPlaced h
      refine settles all d ?_ allPlaced h
      simp only [List.length_append, List.length_singleton] at length
      rw [length, List.length_cons]
      omega

theorem settles_dispatch (workers : Nat) (busy : 0 < workers) (records : Records Binary64)
    (d : Deeds) (h : d.Owing lines records.metrics.length records.events.length) :
    (dispatch workers records).Settles (Deeds.Balanced lines) d := by
  rw [dispatch, if_neg busy.ne']
  refine settles_tagMetrics _ _ _ d h fun metrics d metricsLength h => ?_
  refine settles_tagEvents workers busy _ _ _ (by simp) d h
    fun events d eventsLength placed h => ?_
  simp only [List.length_nil, Nat.zero_add] at metricsLength eventsLength
  rw [← metricsLength, ← eventsLength] at h
  exact settles_shares workers busy metrics events placed d h

-- While the lines are read, there is one record or one fault for every line that was counted.
structure Reads (read : Nat) (records : Records Binary64) (d : Deeds) : Prop where
  lines : d.counts.lines = read
  apart : read = records.metrics.length + records.events.length + d.counts.totalBadLines
  untouched : d.counts.metrics = 0 ∧ d.counts.events = 0 ∧ d.counts.metricsDropped = 0 ∧
    d.counts.eventsDropped = 0 ∧ d.shares = []

theorem settles_readLines (rules : Line.Rules) (next : Records Binary64 → Program)
    (results : List (Except Line.Fault Line.Record)) (records : Records Binary64) (d : Deeds)
    (read : Nat) (h : Reads read records d)
    (settles : ∀ records d, Reads (read + results.length) records d →
      (next records).Settles goal d) :
    (readLines rules next results records).Settles goal d := by
  induction results generalizing records d read with
  | nil => exact settles records d h
  | cons result rest ih =>
    obtain ⟨lines, apart, untouched⟩ := h
    have onward (records : Records Binary64) (d : Deeds) (h : Reads (read + 1) records d) :
        (readLines rules next rest records).Settles goal d := by
      refine ih records d (read + 1) h fun records d h => settles records d ?_
      rwa [List.length_cons, ← Nat.add_assoc, Nat.add_right_comm]
    match result with
    | .ok (.metric m) =>
      have kept : Reads (read + 1) { records with metrics := records.metrics ++ [m] }
          (d.count .lines 1) :=
        ⟨congrArg (· + 1) lines, by
          simp only [Deeds.count, Counts.add, Counts.set, Counts.totalBadLines,
            List.length_append, List.length_singleton] at apart ⊢
          omega, untouched⟩
      rw [readLines]
      split <;> exact onward _ _ kept
    | .ok (.event e) =>
      refine onward _ _ ⟨congrArg (· + 1) lines, ?_, untouched⟩
      simp only [Deeds.count, Counts.add, Counts.set, Counts.totalBadLines,
        List.length_append, List.length_singleton] at apart ⊢
      omega
    | .error fault =>
      refine onward _ _ ⟨congrArg (· + 1) lines, ?_, untouched⟩
      simp only [Deeds.countFault, Counts.totalBadLines_addBadLine]
      simp only [Deeds.count, Counts.add, Counts.set, Counts.totalBadLines] at apart ⊢
      omega

theorem settles_handle (rules : Line.Rules) (workers : Nat) (busy : 0 < workers)
    (batch : List Datagram) :
    (handle rules workers batch).Settles (Deeds.Balanced (countedLines batch)) {} := by
  refine settles_readLines rules _ _ _ {} 0 ⟨rfl, rfl, by simp⟩ fun records d h => ?_
  obtain ⟨lines, apart, metrics, events, metricsDropped, eventsDropped, shares⟩ := h
  rw [Nat.zero_add, length_results] at lines apart
  refine settles_dispatch workers busy records _ ⟨lines, ?_, ?_, ?_⟩ <;>
    simp only [Deeds.enqueued, Deeds.count, shares, List.map_nil, List.sum_nil, Counts.add,
      Counts.set, Counts.get, Counts.totalBadLines] at apart ⊢ <;>
    omega

end Program

end Pipeline

end StatsDaemon
