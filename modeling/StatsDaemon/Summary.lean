import StatsDaemon.Decimal.Layout
import StatsDaemon.Number

namespace StatsDaemon

-- The cut at one threshold: the samples up to its bound, from either end.
structure Percentile (α : Type) where
  threshold : α
  bound : α
  count : Nat
  mean : α
  sum : α
  sumSquares : α
  deriving DecidableEq

namespace Percentile

def suffixOf (threshold : Binary64) : String :=
  String.ofList ((Decimal.plain.render threshold.abs).map fun c => if c = '.' then '_' else c)

-- Names the bound: `upper_90`, or `lower_10` for a negative threshold.
def labelOf (threshold : Binary64) : String :=
  (if threshold < 0 then "lower_" else "upper_") ++ suffixOf threshold

variable {α : Type} [Number α]

-- Nearest rank of a threshold among `count` samples; one sample always counts.
def rank (threshold : α) (count : Nat) : Nat :=
  if count = 1 then 1
  else
    min (Number.roundToCount (Number.abs threshold / Number.ofNat 100 * Number.ofNat count)) count

-- The samples inside a threshold: so many from below, or from above if it is negative.
def cut (sorted : List α) (threshold : α) : List α :=
  let r := rank threshold sorted.length
  if Number.isNonnegative threshold then sorted.take r else sorted.drop (sorted.length - r)

def compute (sorted : List α) (threshold : α) : Option (Percentile α) :=
  let r := rank threshold sorted.length
  let inside := cut sorted threshold
  let edge := if Number.isNonnegative threshold then inside.getLast? else inside.head?
  edge.map fun bound =>
    let sum := Number.sum inside
    { threshold, bound
      count := r
      mean := sum / Number.ofNat r
      sum
      sumSquares := Number.sum (inside.map fun x => x * x) }

end Percentile

structure Summary (α : Type) where
  count : Nat
  sampledCount : α
  perSecond : α
  sum : α
  sumSquares : α
  least : α
  greatest : α
  mean : α
  median : α
  deviation : α
  percentiles : List (Percentile α)
  deriving DecidableEq

namespace Summary

variable {α : Type} [Number α]

def medianOf (sorted : List α) (default : α) : α :=
  let half := sorted.length / 2
  let at_ (i : Nat) := sorted.getD i default
  if sorted.length % 2 = 0 then (at_ (half - 1) + at_ half) / Number.ofNat 2 else at_ half

def ofSorted (first : α) (rest : List α) (sampledCount : α) (thresholds : List α)
    (interval : Nat) : Summary α :=
  let sorted := first :: rest
  let count := sorted.length
  let sum := Number.sum sorted
  let mean := sum / Number.ofNat count
  let variance :=
    Number.sum (sorted.map fun x => (x - mean) * (x - mean)) / Number.ofNat count
  { count, sampledCount
    perSecond := Number.perSecond sampledCount interval
    sum
    sumSquares := Number.sum (sorted.map fun x => x * x)
    least := first
    greatest := sorted.getLast (by simp [sorted])
    mean
    median := medianOf sorted first
    deviation := Number.sqrt variance
    percentiles := thresholds.filterMap (Percentile.compute sorted) }

-- Summary of samples over an interval in milliseconds; none without samples.
def compute (samples : List α) (sampledCount : α) (thresholds : List α) (interval : Nat) :
    Option (Summary α) :=
  match samples.mergeSort Number.totalLe with
  | [] => none
  | first :: rest => some (ofSorted first rest sampledCount thresholds interval)

end Summary

end StatsDaemon
