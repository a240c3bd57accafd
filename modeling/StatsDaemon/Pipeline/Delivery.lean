import StatsDaemon.Hosts.Directory
import StatsDaemon.Pipeline.Counts
import StatsDaemon.Pipeline.Dispatcher

namespace StatsDaemon.Pipeline

variable {α : Type}

structure Records (α : Type) where
  metrics : List (Metric α) := []
  events : List Event := []

structure Delivery (α : Type) where
  dispatcher : Dispatcher α
  hosts : Option Hosts.Directory := none

structure Receipt where
  counts : Counts
  measurements : List Telemetry.Measurement := []

namespace Receipt

def countRead (r : Receipt) (status : Hosts.CacheStatus) : Receipt :=
  match status with
  | .miss => { r with counts := { r.counts with cacheMisses := r.counts.cacheMisses + 1 } }
  | .hit | .negative => { r with counts := { r.counts with cacheHits := r.counts.cacheHits + 1 } }

def countLoss (r : Receipt) (loss : Loss) : Receipt :=
  { r with
    counts :=
      { r.counts with
        metricsDropped := r.counts.metricsDropped + loss.metrics
        eventsDropped := r.counts.eventsDropped + loss.events } }

end Receipt

namespace Delivery

-- Adds the tags of the sender, if it is known and there is a directory.
def enrich (hosts : Option Hosts.Directory) (source : Option String) (tags : Tags) (now : Nat)
    (receipt : Receipt) : Option Hosts.Directory × Tags × Receipt :=
  match hosts, source with
  | some directory, some source =>
    let (directory, status, tags, measurements) := directory.apply source tags now
    (some directory, tags,
      { receipt with measurements := receipt.measurements ++ measurements }.countRead status)
  | _, _ => (hosts, tags, receipt)

def enrichMetrics (hosts : Option Hosts.Directory) (now : Nat) (receipt : Receipt) :
    List (Metric α) → Option Hosts.Directory × List (Metric α) × Receipt
  | [] => (hosts, [], receipt)
  | m :: rest =>
    let (hosts, tags, receipt) := enrich hosts m.source m.tags now receipt
    let (hosts, rest, receipt) := enrichMetrics hosts now receipt rest
    (hosts, { m with tags } :: rest, receipt)

def enrichEvents (hosts : Option Hosts.Directory) (now : Nat) (receipt : Receipt) :
    List Event → Option Hosts.Directory × List Event × Receipt
  | [] => (hosts, [], receipt)
  | e :: rest =>
    let (hosts, tags, receipt) := enrich hosts e.source e.tags now receipt
    let (hosts, rest, receipt) := enrichEvents hosts now receipt rest
    (hosts, { e with tags } :: rest, receipt)

-- Delivers records. Without workers they are not looked at.
def deliver (d : Delivery α) (records : Records α) (now : Nat) (receipt : Receipt) :
    Delivery α × Receipt :=
  if d.dispatcher.queues.isEmpty then (d, receipt)
  else
    let (hosts, metrics, receipt) := enrichMetrics d.hosts now receipt records.metrics
    let (hosts, events, receipt) := enrichEvents hosts now receipt records.events
    let (dispatcher, loss) := d.dispatcher.dispatch (metrics.map Metric.keyed) events
    ({ dispatcher, hosts }, receipt.countLoss loss)

end Delivery

end StatsDaemon.Pipeline
