import StatsDaemon.Pipeline.Dispatcher
import StatsDaemon.Shard
import StatsDaemon.Telemetry.Catalog
import StatsDaemon.Ticker

namespace StatsDaemon

structure Report (α : Type) where
  snapshot : Snapshot α
  identities : Nat

-- Between two steps of a scan the worker may do other work.
structure Worker (α : Type) where
  shard : Shard α
  scanning : Bool := false
  ticker : Ticker
  scanChunk : Nat

namespace Worker

variable {α : Type}

def start (c : Config.Aggregation) (now : Nat) : Worker α :=
  { shard := .ofSettings c
    ticker := .after now c.checkInterval
    scanChunk := c.scanChunk }

variable [Number α]

open Telemetry in
-- Folds one metric in. One that does not fit the entry of its identity is counted.
def addMetric (w : Worker α) (m : KeyedMetric α) (now : Nat) : Worker α × List Measurement :=
  match w.shard.merge m now with
  | .ok shard => ({ w with shard }, [])
  | .error mismatch => (w, [mergeFailed mismatch.aggregate.name])

omit [Number α] in
open Telemetry in
def addEvent (w : Worker α) (e : Event) : Worker α × List Measurement :=
  match w.shard.addEvent e with
  | (shard, true) => ({ w with shard }, [])
  | (shard, false) => ({ w with shard }, [eventsDropped 1])

open Telemetry in
-- Folds a share in, metrics before events.
def handleShare (w : Worker α) (share : Pipeline.Share α) (now : Nat) :
    Worker α × List Measurement :=
  let (w, failed) := share.metrics.foldl (fun (w, failed) m =>
    let (w, more) := w.addMetric m now
    (w, failed ++ more)) (w, [])
  share.events.foldl (fun (w, failed) e =>
    let (w, more) := w.addEvent e
    (w, failed ++ more)) (w, failed)

open Telemetry in
def handleShares (w : Worker α) (shares : List (Pipeline.Share α)) (now : Nat) :
    Worker α × List Measurement :=
  shares.foldl (fun (w, measurements) share =>
    let (w, more) := w.handleShare share now
    (w, measurements ++ more)) (w, [])

section Folds

variable {R : Worker α → List (KeyedMetric α) → Worker α → Prop} {now : Nat}
  (refl : ∀ w, R w [] w)
  (trans : ∀ {w middle next metrics more}, R w metrics middle → R middle more next →
    R w (metrics ++ more) next)
  (metric : ∀ w m, R w [m] (w.addMetric m now).1) (event : ∀ w e, R w [] (w.addEvent e).1)

include refl trans metric event

-- What is so for each metric and each event is so for a share. The measurements that are gathered
-- on the way have no part in it.
theorem handleShare_of (w : Worker α) (share : Pipeline.Share α) :
    R w share.metrics (w.handleShare share now).1 := by
  have hmetrics : ∀ (metrics : List (KeyedMetric α)) (w : Worker α) failed,
      R w metrics (metrics.foldl (fun (w, failed) m =>
        let (w, more) := w.addMetric m now
        (w, failed ++ more)) (w, failed)).1 := by
    intro metrics
    induction metrics with
    | nil => exact fun w _ => refl w
    | cons m rest ih => exact fun w _ => trans (metric w m) (ih _ _)
  have hevents : ∀ (events : List Event) (w : Worker α) failed,
      R w [] (events.foldl (fun (w, failed) e =>
        let (w, more) := w.addEvent e
        (w, failed ++ more)) (w, failed)).1 := by
    intro events
    induction events with
    | nil => exact fun w _ => refl w
    | cons e rest ih => exact fun w _ => trans (event w e) (ih _ _)
  rw [← List.append_nil share.metrics]
  exact trans (hmetrics share.metrics w []) (hevents share.events _ _)

theorem handleShares_of (w : Worker α) (shares : List (Pipeline.Share α)) :
    R w (shares.flatMap Pipeline.Share.metrics) (w.handleShares shares now).1 := by
  rw [handleShares]
  generalize ([] : List Telemetry.Measurement) = measurements
  induction shares generalizing w measurements with
  | nil => exact refl w
  | cons share rest ih =>
    exact trans (handleShare_of refl trans metric event w share) (ih _ _)

end Folds

open Telemetry in
-- Reports the shard. For the last flush, all that is queued is folded in first.
def handleFlush (w : Worker α) (q : Pipeline.Queue (Pipeline.Share α)) (drain : Bool) (now : Nat) :
    Worker α × Pipeline.Queue (Pipeline.Share α) × Report α × List Measurement :=
  let (q, queued) := if drain then q.drain else (q, [])
  let (w, measurements) := w.handleShares queued now
  let (shard, snapshot) := w.shard.snapshot now
  ({ w with shard }, q, ⟨snapshot, shard.entries.length⟩,
    measurements ++ [expired snapshot.expired .flush])

omit [Number α] in
def startScan (w : Worker α) (now : Nat) : Worker α :=
  { w with scanning := true, ticker := w.ticker.skip now }

omit [Number α] in
open Telemetry in
def expireStep (w : Worker α) (now : Nat) : Worker α × List Measurement :=
  let (shard, step) := w.shard.expireChunk now w.scanChunk
  ({ w with shard, scanning := w.scanning && !step.finished }, [expired step.removed .scan])

end Worker

end StatsDaemon
