import StatsDaemon.Line.Reader
import StatsDaemon.Net.Address
import StatsDaemon.Pipeline.Delivery
import StatsDaemon.Pipeline.Limiter

namespace StatsDaemon.Pipeline

structure Datagram where
  data : List UInt8
  source : Net.IpAddress

structure Intake where
  rules : Line.Rules
  limiter : Option (Limiter Binary64)
  counts : Counts := {}
  delivery : Delivery Binary64

namespace Intake

def start (rules : Line.Rules) (delivery : Delivery Binary64) (now : Nat) : Intake :=
  { rules, delivery, limiter := Limiter.start? rules.badLinesPerMinute now }

structure Reading where
  limiter : Option (Limiter Binary64)
  counts : Counts
  records : Records Binary64 := {}
  log : List Logging.Entry := []

namespace Reading

def addMetric (r : Reading) (logged : Bool) (m : Metric Binary64) : Reading :=
  { r with
    records := { r.records with metrics := r.records.metrics ++ [m] }
    log := if logged then r.log ++ [⟨.info, "received metric", none⟩] else r.log }

def addEvent (r : Reading) (e : Event) : Reading :=
  { r with records := { r.records with events := r.records.events ++ [e] } }

-- A malformed line is counted in any case, and logged if the limiter allows it.
def addFault (r : Reading) (fault : Line.Fault) (now : Nat) : Reading :=
  let (limiter, logged) := Limiter.allow r.limiter now
  { r with
    limiter
    counts := r.counts.addBadLine fault.label
    log := if logged then r.log ++ [⟨.warn, "dropped malformed line", some fault.message⟩]
      else r.log }

def add (rules : Line.Rules) (now : Nat) (r : Reading) (result : Except Line.Fault Line.Record) :
    Reading :=
  let r := { r with counts := { r.counts with lines := r.counts.lines + 1 } }
  match result with
  | .ok (.metric m) => r.addMetric rules.logMetrics m
  | .ok (.event e) => r.addEvent e
  | .error fault => r.addFault fault now

def addDatagram (rules : Line.Rules) (now : Nat) (r : Reading) (d : Datagram) : Reading :=
  (Line.readAll rules (some d.source.text) d.data).foldl (add rules now) r

end Reading

def receive (i : Intake) (batch : List Datagram) (now : Nat) : Intake × Journal :=
  let r := batch.foldl (Reading.addDatagram i.rules now) { limiter := i.limiter, counts := i.counts }
  let counts :=
    { r.counts with
      metrics := r.counts.metrics + r.records.metrics.length
      events := r.counts.events + r.records.events.length }
  let (delivery, receipt) := i.delivery.deliver r.records now { counts }
  ({ i with limiter := r.limiter, counts := receipt.counts, delivery },
    { log := r.log, measurements := receipt.measurements })

-- The rules for the daemon's own lines, which name their host themselves.
def ownRules : Line.Rules :=
  { ignoreHost := true }

def recordsOf (results : List (Except Line.Fault Line.Record)) : Records Binary64 :=
  { metrics := results.filterMap fun
      | .ok (.metric m) => some m
      | _ => none
    events := results.filterMap fun
      | .ok (.event e) => some e
      | _ => none }

-- Takes in a packet of the daemon's own lines. They are not counted as received; those that are
-- lost are measured.
def receiveOwn (d : Delivery Binary64) (packet : List UInt8) (now : Nat) :
    Delivery Binary64 × List Telemetry.Measurement :=
  let records := recordsOf (Line.readAll ownRules none packet)
  let (d, receipt) := d.deliver records now { counts := {} }
  let lost := receipt.counts.metricsDropped + receipt.counts.eventsDropped
  (d, receipt.measurements ++ if 0 < lost then [Telemetry.ownMetricsDropped lost] else [])

end Intake

end StatsDaemon.Pipeline
