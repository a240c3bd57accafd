import StatsDaemon.Document
import StatsDaemon.Event

namespace StatsDaemon

def Json.field? (name : String) (value : Option Json) : List (String × Json) :=
  value.elim [] fun v => [(name, v)]

def Tags.toJson (tags : Tags) : Json :=
  .strings tags.items

def Tags.ofJson? (j : Json) : Option Tags :=
  (Document.texts? j).map Tags.ofList

namespace Event

def fieldNames : List String :=
  ["title", "text", "timestamp", "hostname", "priority", "alert_type", "aggregation_key",
    "source_type_name", "tags", "source"]

def toJson (e : Event) : Json :=
  .obj <|
    [("title", .str e.title), ("text", .str e.text)]
      ++ Json.field? "timestamp" (e.timestamp.map Json.int)
      ++ Json.field? "hostname" (e.hostname.map Json.str)
      ++ [("priority", .str e.priority.name), ("alert_type", .str e.alertType.name)]
      ++ Json.field? "aggregation_key" (e.aggregationKey.map Json.str)
      ++ Json.field? "source_type_name" (e.sourceTypeName.map Json.str)
      ++ [("tags", e.tags.toJson)]
      ++ Json.field? "source" (e.source.map Json.str)

open Document in
def ofJson? (j : Json) : Option Event := do
  let [title, text, timestamp, hostname, priority, alertType, aggregationKey, sourceTypeName, tags,
    source] ← record? fieldNames j | none
  some
    { title := ← required text? title
      text := ← required text? text
      timestamp := ← optional integer? timestamp
      hostname := ← optional text? hostname
      priority := ← orElse .normal (choose? Priority.ofName?) priority
      alertType := ← orElse .info (choose? AlertType.ofName?) alertType
      aggregationKey := ← optional text? aggregationKey
      sourceTypeName := ← optional text? sourceTypeName
      tags := ← orElse .empty Tags.ofJson? tags
      source := ← optional text? source }

end Event

end StatsDaemon
