import StatsDaemon.Event
import StatsDaemon.Number
import StatsDaemon.Series

namespace StatsDaemon

structure CounterReading (α : Type) where
  series : Series
  -- Increments since the last report.
  delta : α
  -- All increments reported so far, these included.
  total : α
  deriving DecidableEq

structure GaugeReading (α : Type) where
  series : Series
  value : α
  deriving DecidableEq

structure SetReading where
  series : Series
  cardinality : Nat
  deriving DecidableEq

structure TimerReading (α : Type) where
  series : Series
  samples : List α
  sampledCount : α
  deriving DecidableEq

structure Snapshot (α : Type) where
  counters : List (CounterReading α) := []
  gauges : List (GaugeReading α) := []
  sets : List SetReading := []
  timers : List (TimerReading α) := []
  events : List Event := []
  -- Identities that were removed because they had been idle.
  expired : Nat := 0
  deriving DecidableEq

def changeLast? {β : Type} (test : β → Bool) (change : β → β) : List β → Option (List β)
  | [] => none
  | first :: rest =>
    match changeLast? test change rest with
    | some rest => some (first :: rest)
    | none => if test first then some (change first :: rest) else none

-- Folds an item into the one of the same series, or adds it.
def foldReading {β : Type} (series : β → Series) (fold : β → β → β) (items : List β) (item : β) :
    List β :=
  (changeLast? (fun other => series other == series item) (fold · item) items).getD (items ++ [item])

namespace Snapshot

variable {α : Type}

def isEmpty (s : Snapshot α) : Bool :=
  s.counters.isEmpty && s.gauges.isEmpty && s.sets.isEmpty && s.timers.isEmpty && s.events.isEmpty

-- Folds a later report in: increments, members and samples add up, the rest is the later one's.
def merge [Number α] (s later : Snapshot α) : Snapshot α :=
  { counters := later.counters.foldl (foldReading CounterReading.series fun c l =>
      { c with delta := c.delta + l.delta, total := l.total }) s.counters
    gauges := later.gauges.foldl (foldReading GaugeReading.series fun g l =>
      { g with value := l.value }) s.gauges
    sets := later.sets.foldl (foldReading SetReading.series fun t l =>
      { t with cardinality := t.cardinality + l.cardinality }) s.sets
    timers := later.timers.foldl (foldReading TimerReading.series fun t l =>
      { t with
        samples := t.samples ++ l.samples
        sampledCount := t.sampledCount + l.sampledCount }) s.timers
    events := s.events ++ later.events
    expired := s.expired + later.expired }

def mergeAll [Number α] : List (Snapshot α) → Snapshot α
  | [] => {}
  | first :: rest => rest.foldl merge first

end Snapshot

end StatsDaemon
