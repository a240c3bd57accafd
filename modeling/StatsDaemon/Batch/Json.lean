import StatsDaemon.Batch
import StatsDaemon.Event.Json

namespace StatsDaemon

open Document

def Series.fields (s : Series) : List (String × Json) :=
  [("name", .str s.name), ("tags", s.tags.toJson)]

def Series.ofFields? (name tags : Option Json) : Option Series := do
  some ⟨← required text? name, ← required Tags.ofJson? tags⟩

namespace FlushedCounter

def toJson (c : FlushedCounter Binary64) : Json :=
  .obj <| c.series.fields ++
    [("delta", .real c.delta), ("per_second", .real c.perSecond), ("total", .real c.total)]

def ofJson? (j : Json) : Option (FlushedCounter Binary64) := do
  let [name, tags, delta, perSecond, total] ←
    record? ["name", "tags", "delta", "per_second", "total"] j | none
  some
    { series := ← Series.ofFields? name tags
      delta := ← required real? delta
      perSecond := ← required real? perSecond
      total := ← required real? total }

end FlushedCounter

namespace GaugeReading

def toJson (g : GaugeReading Binary64) : Json :=
  .obj <| g.series.fields ++ [("value", .real g.value)]

def ofJson? (j : Json) : Option (GaugeReading Binary64) := do
  let [name, tags, value] ← record? ["name", "tags", "value"] j | none
  some { series := ← Series.ofFields? name tags, value := ← required real? value }

end GaugeReading

namespace SetReading

def toJson (s : SetReading) : Json :=
  .obj <| s.series.fields ++ [("cardinality", .ofNat s.cardinality)]

def ofJson? (j : Json) : Option SetReading := do
  let [name, tags, cardinality] ← record? ["name", "tags", "cardinality"] j | none
  some { series := ← Series.ofFields? name tags, cardinality := ← required natural? cardinality }

end SetReading

namespace Percentile

def toJson (p : Percentile Binary64) : Json :=
  .obj
    [("threshold", .real p.threshold), ("bound", .real p.bound), ("count", .ofNat p.count),
      ("mean", .real p.mean), ("sum", .real p.sum), ("sum_squares", .real p.sumSquares)]

def ofJson? (j : Json) : Option (Percentile Binary64) := do
  let [threshold, bound, count, mean, sum, sumSquares] ←
    record? ["threshold", "bound", "count", "mean", "sum", "sum_squares"] j | none
  some
    { threshold := ← required real? threshold
      bound := ← required real? bound
      count := ← required natural? count
      mean := ← required real? mean
      sum := ← required real? sum
      sumSquares := ← required real? sumSquares }

end Percentile

namespace FlushedTimer

def toJson (t : FlushedTimer Binary64) : Json :=
  let s := t.summary
  .obj <| t.series.fields ++
    [("count", .ofNat s.count), ("sampled_count", .real s.sampledCount),
      ("per_second", .real s.perSecond), ("sum", .real s.sum), ("sum_squares", .real s.sumSquares),
      ("min", .real s.least), ("max", .real s.greatest), ("mean", .real s.mean),
      ("median", .real s.median), ("stddev", .real s.deviation),
      ("percentiles", .arr (s.percentiles.map Percentile.toJson))]

-- Since its figures stand beside the series, a timer is given by names only.
def ofJson? (j : Json) : Option (FlushedTimer Binary64) := do
  let .obj _ := j | none
  let [name, tags, count, sampledCount, perSecond, sum, sumSquares, least, greatest, mean, median,
    deviation, percentiles] ←
    record?
      ["name", "tags", "count", "sampled_count", "per_second", "sum", "sum_squares", "min", "max",
        "mean", "median", "stddev", "percentiles"] j | none
  some
    { series := ← Series.ofFields? name tags
      summary :=
        { count := ← required natural? count
          sampledCount := ← required real? sampledCount
          perSecond := ← required real? perSecond
          sum := ← required real? sum
          sumSquares := ← required real? sumSquares
          least := ← required real? least
          greatest := ← required real? greatest
          mean := ← required real? mean
          median := ← required real? median
          deviation := ← required real? deviation
          percentiles := ← required (list? Percentile.ofJson?) percentiles } }

end FlushedTimer

namespace Batch

def toJson (b : Batch Binary64) : Json :=
  .obj
    [("timestamp", .ofNat b.timestamp),
      ("counters", .arr (b.counters.map FlushedCounter.toJson)),
      ("gauges", .arr (b.gauges.map GaugeReading.toJson)),
      ("sets", .arr (b.sets.map SetReading.toJson)),
      ("timers", .arr (b.timers.map FlushedTimer.toJson)),
      ("events", .arr (b.events.map Event.toJson))]

def ofJson? (j : Json) : Option (Batch Binary64) := do
  let [timestamp, counters, gauges, sets, timers, events] ←
    record? ["timestamp", "counters", "gauges", "sets", "timers", "events"] j | none
  some
    { timestamp := ← required natural? timestamp
      counters := ← required (list? FlushedCounter.ofJson?) counters
      gauges := ← required (list? GaugeReading.ofJson?) gauges
      sets := ← required (list? SetReading.ofJson?) sets
      timers := ← required (list? FlushedTimer.ofJson?) timers
      events := ← required (list? Event.ofJson?) events }

end Batch

end StatsDaemon
