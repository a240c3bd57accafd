import StatsDaemon.Telemetry.Client

namespace StatsDaemon.Telemetry

def counter (name : String) (n : Nat) (tags : List (String × String) := []) : Measurement :=
  { kind := .counter, name, quantity := .whole n, tags }

def gauge (name : String) (n : Nat) (tags : List (String × String) := []) : Measurement :=
  { kind := .gauge, name, quantity := .whole n, tags }

def decimal (n : Nat) : String :=
  String.ofList (Decimal.digitsOf n)

def eventsDropped (n : Nat) : Measurement :=
  counter "aggregator.events_dropped" n

inductive ExpiryStage where
  | flush
  | scan

def expired (n : Nat) (stage : ExpiryStage) : Measurement :=
  counter "aggregator.expired" n [("stage", match stage with | .flush => "flush" | .scan => "scan")]

def mergeFailed (kind : String) : Measurement :=
  counter "aggregator.merge_failed" 1 [("kind", kind)]

def workerTimeout (worker : Nat) : Measurement :=
  counter "flush.worker_timeout" 1 [("worker", decimal worker)]

def backendSend (backend result : String) : Measurement :=
  counter "backend.send" 1 [("backend", backend), ("result", result)]

def queueDepth (worker depth : Nat) : Measurement :=
  gauge "dispatcher.queue_depth" depth [("worker", decimal worker)]

def identities (n : Nat) : Measurement :=
  gauge "aggregator.identities" n

def heartbeat (version : String) : Measurement :=
  gauge "heartbeat" 1 [("version", version)]

def cacheSize (n : Nat) : Measurement :=
  gauge "cloud.cache_size" n

def lookupsInFlight (n : Nat) : Measurement :=
  gauge "cloud.lookups_in_flight" n

def lookupsDropped : Measurement :=
  counter "cloud.lookups_dropped" 1

def lookup (result : String) : Measurement :=
  counter "cloud.lookup" 1 [("result", result)]

def ownMetricsDropped (n : Nat) : Measurement :=
  counter "internal.metrics_dropped" n

end StatsDaemon.Telemetry
