import StatsDaemon.Event.Json
import StatsDaemon.Json.Writer
import StatsDaemon.Metric

namespace StatsDaemon

namespace Value

def toJson (v : Value Binary64) : Json :=
  let body := match v with
    | .counter x | .gauge x | .timer x => Json.real x
    | .set member => Json.str member
  .obj [("type", .str v.kind.name), ("value", body)]

open Document in
def ofJson? (j : Json) : Option (Value Binary64) := do
  let [kind, body] ← record? ["type", "value"] j | none
  match ← required (choose? Kind.ofName?) kind with
  | .counter => (required real? body).map .counter
  | .gauge => (required real? body).map .gauge
  | .set => (required text? body).map .set
  | .timer => (required real? body).map .timer

end Value

namespace Metric

def toJson (m : Metric Binary64) : Json :=
  .obj <|
    [("name", .str m.name), ("value", m.value.toJson), ("sample_rate", .real m.sampleRate),
      ("tags", m.tags.toJson)]
      ++ Json.field? "source" (m.source.map Json.str)

open Document in
def ofJson? (j : Json) : Option (Metric Binary64) := do
  let [name, value, sampleRate, tags, source] ←
    record? ["name", "value", "sample_rate", "tags", "source"] j | none
  some
    { name := ← required text? name
      value := ← required Value.ofJson? value
      sampleRate := ← required real? sampleRate
      tags := ← required Tags.ofJson? tags
      source := ← optional text? source }

end Metric

end StatsDaemon
