import StatsDaemon.Telemetry.Catalog

namespace StatsDaemon.Pipeline

structure Counts where
  -- Datagrams, or lines of a connection.
  packets : Nat := 0
  bytes : Nat := 0
  -- Lines that are not empty.
  lines : Nat := 0
  metrics : Nat := 0
  events : Nat := 0
  readErrors : Nat := 0
  truncated : Nat := 0
  metricsDropped : Nat := 0
  eventsDropped : Nat := 0
  cacheHits : Nat := 0
  cacheMisses : Nat := 0
  -- Malformed lines by the label of their fault, in the order of the labels.
  badLines : List (String × Nat) := []
  deriving DecidableEq

namespace Counts

def increment (label : String) : List (String × Nat) → List (String × Nat)
  | [] => [(label, 1)]
  | (other, n) :: rest =>
    if label < other then (label, 1) :: (other, n) :: rest
    else if label = other then (other, n + 1) :: rest
    else (other, n) :: increment label rest

def total : List (String × Nat) → Nat
  | [] => 0
  | (_, n) :: rest => n + total rest

def addBadLine (c : Counts) (label : String) : Counts :=
  { c with badLines := increment label c.badLines }

def totalBadLines (c : Counts) : Nat :=
  total c.badLines

theorem total_increment (label : String) (counts : List (String × Nat)) :
    total (increment label counts) = total counts + 1 := by
  induction counts with
  | nil => rfl
  | cons first rest ih =>
    obtain ⟨other, n⟩ := first
    unfold increment
    split
    · simp only [total]; omega
    · split
      · simp only [total]; omega
      · simp only [total, ih]; omega

theorem totalBadLines_addBadLine (c : Counts) (label : String) :
    (c.addBadLine label).totalBadLines = c.totalBadLines + 1 :=
  total_increment label c.badLines

-- The counts as measurements; those that are zero are not sent.
def measurements (c : Counts) : List Telemetry.Measurement :=
  [Telemetry.counter "receiver.packets" c.packets,
    Telemetry.counter "receiver.bytes" c.bytes,
    Telemetry.counter "parser.lines" c.lines,
    Telemetry.counter "parser.metrics" c.metrics,
    Telemetry.counter "parser.events" c.events,
    Telemetry.counter "receiver.read_errors" c.readErrors,
    Telemetry.counter "receiver.truncated" c.truncated,
    Telemetry.counter "dispatcher.metrics_dropped" c.metricsDropped,
    Telemetry.counter "dispatcher.events_dropped" c.eventsDropped,
    Telemetry.counter "cloud.cache_hit" c.cacheHits,
    Telemetry.counter "cloud.cache_miss" c.cacheMisses]
    ++ c.badLines.map fun (kind, n) => Telemetry.counter "parser.bad_lines" n [("kind", kind)]

end Counts

end StatsDaemon.Pipeline
