import StatsDaemon.Snapshot
import StatsDaemon.Summary

namespace StatsDaemon

structure FlushedCounter (α : Type) where
  series : Series
  delta : α
  perSecond : α
  total : α
  deriving DecidableEq

structure FlushedTimer (α : Type) where
  series : Series
  summary : Summary α
  deriving DecidableEq

structure Batch (α : Type) where
  -- Seconds since the epoch.
  timestamp : Nat
  counters : List (FlushedCounter α)
  gauges : List (GaugeReading α)
  sets : List SetReading
  timers : List (FlushedTimer α)
  events : List Event
  deriving DecidableEq

namespace Batch

variable {α : Type}

-- Items in the order of their series; those of one series keep their order.
def sorted {β : Type} (series : β → Series) (items : List β) : List β :=
  items.mergeSort fun a b => (series a).le (series b)

section

variable [Number α]

def flushCounter (interval : Nat) (c : CounterReading α) : FlushedCounter α :=
  ⟨c.series, c.delta, Number.perSecond c.delta interval, c.total⟩

def flushTimer? (thresholds : List α) (interval : Nat) (t : TimerReading α) :
    Option (FlushedTimer α) :=
  (Summary.compute t.samples t.sampledCount thresholds interval).map (⟨t.series, ·⟩)

-- The batch of the workers' reports over an interval in milliseconds.
def ofSnapshots (snapshots : List (Snapshot α)) (thresholds : List α) (interval timestamp : Nat) :
    Batch α :=
  { timestamp
    counters :=
      sorted FlushedCounter.series
        (snapshots.flatMap fun s => s.counters.map (flushCounter interval))
    gauges := sorted GaugeReading.series (snapshots.flatMap Snapshot.gauges)
    sets := sorted SetReading.series (snapshots.flatMap Snapshot.sets)
    timers :=
      sorted FlushedTimer.series
        (snapshots.flatMap fun s => s.timers.filterMap (flushTimer? thresholds interval))
    events := snapshots.flatMap Snapshot.events }

end

-- Number of series; events do not count.
def size (b : Batch α) : Nat :=
  b.counters.length + b.gauges.length + b.sets.length + b.timers.length

def isEmpty (b : Batch α) : Bool :=
  b.size == 0 && b.events.isEmpty

end Batch

end StatsDaemon
