import StatsDaemon.Proofs.Shard.Operation
import Mathlib.Data.Finset.Card
import Mathlib.Logic.Function.Basic

namespace StatsDaemon

variable {α : Type}

namespace Metric

def increment? [Number α] (m : Metric α) : Option α :=
  match m.value with
  | .counter x => some (x / m.sampleRate)
  | _ => none

def gauge? (m : Metric α) : Option α :=
  match m.value with
  | .gauge x => some x
  | _ => none

def member? (m : Metric α) : Option String :=
  match m.value with
  | .set member => some member
  | _ => none

def sample? (m : Metric α) : Option α :=
  match m.value with
  | .timer x => some x
  | _ => none

def weight? [Number α] (m : Metric α) : Option α :=
  match m.value with
  | .timer _ => some (Number.one / m.sampleRate)
  | _ => none

end Metric

-- The life of an identity begins with the merge that creates it, and ends with its removal.
structure Life (α : Type) where
  -- The metrics of the windows that were reported, window by window.
  reported : List (List (Metric α))
  -- The metrics since the last report.
  window : List (Metric α)
  lastSeen : Nat

namespace Life

-- A sum in the order of arrival. The first window of a life sums from its first number, a later
-- one from zero; among doubles this matters for the sign of a zero.
def gather [Number α] (first : Bool) (xs : List α) : α :=
  match first, xs with
  | true, x :: rest => rest.foldl (· + ·) x
  | _, xs => xs.foldl (· + ·) Number.zero

def metrics (life : Life α) : List (Metric α) :=
  life.reported.flatten ++ life.window

def delta [Number α] (life : Life α) : α :=
  gather life.reported.isEmpty (life.window.filterMap Metric.increment?)

def deltas [Number α] (life : Life α) : List α :=
  life.reported.mapIdx fun i window => gather (i == 0) (window.filterMap Metric.increment?)

def total [Number α] (life : Life α) : α :=
  (life.deltas ++ [life.delta]).foldl (· + ·) Number.zero

def gauge? (life : Life α) : Option α :=
  (life.metrics.filterMap Metric.gauge?).getLast?

def members (life : Life α) : List String :=
  life.window.filterMap Metric.member?

def samples (life : Life α) : List α :=
  life.window.filterMap Metric.sample?

def weight [Number α] (life : Life α) : α :=
  gather life.reported.isEmpty (life.window.filterMap Metric.weight?)

def born (m : Metric α) (now : Nat) : Life α :=
  ⟨[], [m], now⟩

def add (life : Life α) (m : Metric α) (now : Nat) : Life α :=
  { life with window := life.window ++ [m], lastSeen := now }

def close (life : Life α) : Life α :=
  { life with reported := life.reported ++ [life.window], window := [] }

end Life

-- What a shard is meant to report is read off the metrics of each life.
structure Ledger (α : Type) where
  lives : Key → Option (Life α)
  -- All events since the last report, also those that were refused.
  events : List Event

namespace Ledger

def empty : Ledger α :=
  ⟨fun _ => none, []⟩

def merge (l : Ledger α) (m : Metric α) (now : Nat) : Ledger α :=
  { l with
    lives := Function.update l.lives m.key <| some <|
      match l.lives m.key with
      | none => .born m now
      | some life => life.add m now }

def addEvent (l : Ledger α) (e : Event) : Ledger α :=
  { l with events := l.events ++ [e] }

def forget (l : Ledger α) (gone : List Key) : Ledger α :=
  { l with lives := fun k => if k ∈ gone then none else l.lives k }

def Idle (l : Ledger α) (expiry : ExpiryIntervals) (now : Nat) (k : Key) : Prop :=
  ∃ life, l.lives k = some life ∧ expiry.isIdle k.kind life.lastSeen now = true

def live (l : Ledger α) (expiry : ExpiryIntervals) (now : Nat) (k : Key) : Option (Life α) :=
  (l.lives k).filter fun life => !expiry.isIdle k.kind life.lastSeen now

-- After a report there are the identities that are not idle and may outlive a flush.
def close (l : Ledger α) (expiry : ExpiryIntervals) (now : Nat) : Ledger α :=
  { lives := fun k => if expiry.get k.kind = 0 then none else (l.live expiry now k).map Life.close
    events := [] }

-- What a report says: for each kind, every identity that it lists stands there once, and which
-- ones are listed with which figures.
structure Reports [Number α] (l : Ledger α) (expiry : ExpiryIntervals) (limit now : Nat)
    (s : Snapshot α) : Prop where
  once : s.Once
  counters : ∀ r, r ∈ s.counters ↔ ∃ life, l.live expiry now (r.series.key .counter) = some life ∧
    r.delta = life.delta ∧ r.total = life.total
  gauges : ∀ r, r ∈ s.gauges ↔ ∃ life, l.live expiry now (r.series.key .gauge) = some life ∧
    life.gauge? = some r.value
  sets : ∀ r, r ∈ s.sets ↔ ∃ life, l.live expiry now (r.series.key .set) = some life ∧
    life.window ≠ [] ∧ r.cardinality = life.members.toFinset.card
  timers : ∀ r, r ∈ s.timers ↔ ∃ life, l.live expiry now (r.series.key .timer) = some life ∧
    life.window ≠ [] ∧ r.samples = life.samples ∧ r.sampledCount = life.weight
  events : s.events = l.events.take limit
  expired : ∃ idle : Finset Key, (∀ k, k ∈ idle ↔ l.Idle expiry now k) ∧ s.expired = idle.card

end Ledger

-- What an operation may do to the ledger. Which of the idle identities a step of a scan removes is
-- up to the scan.
inductive Ledger.Step [Number α] (expiry : ExpiryIntervals) (limit : Nat) :
    Ledger α → Shard.Operation α → Shard.Outcome α → Ledger α → Prop where
  | merge (l : Ledger α) (m : Metric α) (now : Nat) :
    Step expiry limit l (.merge m now) (.merged none) (l.merge m now)
  | addEvent (l : Ledger α) (e : Event) :
    Step expiry limit l (.addEvent e) (.buffered (l.events.length < limit)) (l.addEvent e)
  | expire (l : Ledger α) (now chunk : Nat) (gone : List Key) (finished : Bool)
    (hdistinct : gone.Nodup) (hidle : ∀ k ∈ gone, l.Idle expiry now k)
    (hlength : gone.length ≤ max chunk 1) :
    Step expiry limit l (.expire now chunk) (.expired ⟨gone.length, finished⟩) (l.forget gone)
  | snapshot (l : Ledger α) (now : Nat) (s : Snapshot α) (h : l.Reports expiry limit now s) :
    Step expiry limit l (.snapshot now) (.reported s) (l.close expiry now)

end StatsDaemon
