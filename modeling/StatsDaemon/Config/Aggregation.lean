import StatsDaemon.Decimal.Layout
import StatsDaemon.Document
import StatsDaemon.Kind

namespace StatsDaemon

structure DisabledFigures where
  lower : Bool := false
  lowerPct : Bool := false
  upper : Bool := false
  upperPct : Bool := false
  count : Bool := false
  countPct : Bool := false
  countPerSecond : Bool := false
  mean : Bool := false
  meanPct : Bool := false
  median : Bool := false
  std : Bool := false
  sum : Bool := false
  sumPct : Bool := false
  sumSquares : Bool := false
  sumSquaresPct : Bool := false
  deriving DecidableEq

namespace DisabledFigures

open Document

def fieldNames : List String :=
  ["lower", "lower_pct", "upper", "upper_pct", "count", "count_pct", "count_per_second", "mean",
    "mean_pct", "median", "std", "sum", "sum_pct", "sum_squares", "sum_squares_pct"]

def toList (d : DisabledFigures) : List Bool :=
  [d.lower, d.lowerPct, d.upper, d.upperPct, d.count, d.countPct, d.countPerSecond, d.mean,
    d.meanPct, d.median, d.std, d.sum, d.sumPct, d.sumSquares, d.sumSquaresPct]

def ofList? : List Bool → Option DisabledFigures
  | [lower, lowerPct, upper, upperPct, count, countPct, countPerSecond, mean, meanPct, median, std,
      sum, sumPct, sumSquares, sumSquaresPct] =>
    some
      { lower, lowerPct, upper, upperPct, count, countPct, countPerSecond, mean, meanPct, median,
        std, sum, sumPct, sumSquares, sumSquaresPct }
  | _ => none

theorem ofList_toList (d : DisabledFigures) : ofList? d.toList = some d := rfl

def ofDocument? {δ : Type} [Document δ] (d : δ) : Option DisabledFigures := do
  ofList? (← (← record? fieldNames d).mapM (orElse false flag?))

def toJson (d : DisabledFigures) : Json :=
  .obj (fieldNames.zip (d.toList.map Json.bool))

end DisabledFigures

namespace Config

inductive AggregationFault where
  | noWorkers
  | zeroFlushInterval
  | invalidPercentile (threshold : Binary64)
  deriving DecidableEq

def AggregationFault.message : AggregationFault → String
  | .noWorkers => "at least one aggregation worker is required"
  | .zeroFlushInterval => "flush interval must not be zero"
  | .invalidPercentile threshold => "invalid percentile threshold " ++ Decimal.plainText threshold

-- Expiry intervals are in seconds, all other times in milliseconds.
structure Aggregation where
  workers : Nat
  -- Batches that one worker's queue holds.
  queueSize : Nat := 10000
  -- Events that one worker buffers between two flushes.
  maxEvents : Nat := 1024
  flushInterval : Nat := 1000
  flushTimeout : Nat := 1000
  percentiles : List Binary64 := [90]
  -- Seconds until an idle identity is removed; with zero none outlives a flush.
  expiry : Nat := 300
  expiryCounter : Option Nat := none
  expiryGauge : Option Nat := none
  expirySet : Option Nat := none
  expiryTimer : Option Nat := none
  expiryCheck : Option Nat := none
  -- Identities that one step of a scan inspects.
  scanChunk : Nat := 1000
  disabled : DisabledFigures := {}
  deriving DecidableEq

namespace Aggregation

def expiryInterval (c : Aggregation) (kind : Kind) : Nat :=
  let own := match kind with
    | .counter => c.expiryCounter
    | .gauge => c.expiryGauge
    | .set => c.expirySet
    | .timer => c.expiryTimer
  own.getD c.expiry * 1000

def kinds : List Kind := [.counter, .gauge, .set, .timer]

-- Milliseconds between two scans: never more than the smallest expiry interval, and not zero.
def checkInterval (c : Aggregation) : Nat :=
  let configured := c.expiryCheck.getD c.flushInterval
  let intervals := (kinds.map c.expiryInterval).filter (· ≠ 0)
  max (intervals.foldl min configured) 1

def isPercentile (threshold : Binary64) : Bool :=
  threshold.isFinite && !threshold.isZero && threshold.abs ≤ 100

def validate (c : Aggregation) : Except AggregationFault Unit :=
  if c.workers = 0 then .error .noWorkers
  else if c.flushInterval = 0 then .error .zeroFlushInterval
  else match c.percentiles.find? (!isPercentile ·) with
    | some threshold => .error (.invalidPercentile threshold)
    | none => .ok ()

theorem validate_eq_ok_iff (c : Aggregation) : c.validate = .ok () ↔
    c.workers ≠ 0 ∧ c.flushInterval ≠ 0 ∧ ∀ x ∈ c.percentiles, isPercentile x = true := by
  unfold validate
  split
  · rename_i hworkers
    exact ⟨fun h => (nomatch h), fun h => absurd hworkers h.1⟩
  · rename_i hworkers
    split
    · rename_i hinterval
      exact ⟨fun h => (nomatch h), fun h => absurd hinterval h.2.1⟩
    · rename_i hinterval
      split
      · rename_i threshold hfind
        have hinvalid := List.find?_some hfind
        refine ⟨fun h => (nomatch h), fun h => ?_⟩
        simp [h.2.2 threshold (List.mem_of_find?_eq_some hfind)] at hinvalid
      · rename_i hfind
        simp only [List.find?_eq_none, Bool.not_eq_true', Bool.not_eq_false] at hfind
        exact ⟨fun _ => ⟨hworkers, hinterval, hfind⟩, fun _ => rfl⟩

open Document

def fieldNames : List String :=
  ["max_workers", "max_queue_size", "max_pending_events", "flush_interval_ms", "flush_timeout_ms",
    "percentiles", "expiry_interval", "expiry_interval_counter", "expiry_interval_gauge",
    "expiry_interval_set", "expiry_interval_timer", "expiry_check_interval_ms",
    "expiry_scan_chunk", "disabled_sub_metrics"]

def ofDocument? {δ : Type} [Document δ] (processors : Nat) (d : δ) : Option Aggregation := do
  let [workers, queueSize, maxEvents, flushInterval, flushTimeout, percentiles, expiry,
    expiryCounter, expiryGauge, expirySet, expiryTimer, expiryCheck, scanChunk, disabled] ←
    record? fieldNames d | none
  let default : Aggregation := { workers := processors }
  some
    { workers := ← orElse default.workers natural? workers
      queueSize := ← orElse default.queueSize natural? queueSize
      maxEvents := ← orElse default.maxEvents natural? maxEvents
      flushInterval := ← orElse default.flushInterval natural? flushInterval
      flushTimeout := ← orElse default.flushTimeout natural? flushTimeout
      percentiles := ← orElse default.percentiles (list? real?) percentiles
      expiry := ← orElse default.expiry natural? expiry
      expiryCounter := ← optional natural? expiryCounter
      expiryGauge := ← optional natural? expiryGauge
      expirySet := ← optional natural? expirySet
      expiryTimer := ← optional natural? expiryTimer
      expiryCheck := ← optional natural? expiryCheck
      scanChunk := ← orElse default.scanChunk natural? scanChunk
      disabled := ← orElse default.disabled DisabledFigures.ofDocument? disabled }

def optionalNat (n : Option Nat) : Json :=
  n.elim .null .ofNat

def toJson (c : Aggregation) : Json :=
  .obj
    [("max_workers", .ofNat c.workers),
      ("max_queue_size", .ofNat c.queueSize),
      ("max_pending_events", .ofNat c.maxEvents),
      ("flush_interval_ms", .ofNat c.flushInterval),
      ("flush_timeout_ms", .ofNat c.flushTimeout),
      ("percentiles", .arr (c.percentiles.map .real)),
      ("expiry_interval", .ofNat c.expiry),
      ("expiry_interval_counter", optionalNat c.expiryCounter),
      ("expiry_interval_gauge", optionalNat c.expiryGauge),
      ("expiry_interval_set", optionalNat c.expirySet),
      ("expiry_interval_timer", optionalNat c.expiryTimer),
      ("expiry_check_interval_ms", optionalNat c.expiryCheck),
      ("expiry_scan_chunk", .ofNat c.scanChunk),
      ("disabled_sub_metrics", c.disabled.toJson)]

end Aggregation

end Config

end StatsDaemon
