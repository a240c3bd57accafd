import StatsDaemon.Document
import StatsDaemon.Line.Reader

namespace StatsDaemon.Line.Rules

open Document

def fieldNames : List String :=
  ["namespace", "default_tags", "ignore_host", "bad_lines_per_minute", "log_raw_metric",
    "estimated_tags"]

def ofDocument? {δ : Type} [Document δ] (d : δ) : Option Rules := do
  let [scope, defaultTags, ignoreHost, badLinesPerMinute, logMetrics, estimatedTags] ←
    record? fieldNames d | none
  let default : Rules := {}
  some
    { scope := ← optional text? scope
      defaultTags := ← orElse default.defaultTags texts? defaultTags
      ignoreHost := ← orElse default.ignoreHost flag? ignoreHost
      badLinesPerMinute :=
        ← orElse default.badLinesPerMinute (naturalUpTo? 0xffffffff) badLinesPerMinute
      logMetrics := ← orElse default.logMetrics flag? logMetrics
      estimatedTags := ← orElse default.estimatedTags natural? estimatedTags }

def toJson (r : Rules) : Json :=
  .obj
    [("namespace", .ofString? r.scope),
      ("default_tags", .strings r.defaultTags),
      ("ignore_host", .bool r.ignoreHost),
      ("bad_lines_per_minute", .ofNat r.badLinesPerMinute),
      ("log_raw_metric", .bool r.logMetrics),
      ("estimated_tags", .ofNat r.estimatedTags)]

end StatsDaemon.Line.Rules
