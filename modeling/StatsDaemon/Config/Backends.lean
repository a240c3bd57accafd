import StatsDaemon.Document
import StatsDaemon.Graphite.Format
import StatsDaemon.Net.Url

namespace StatsDaemon

open Document

def Document.socket? {δ : Type} [Document δ] (d : δ) : Option Net.SocketAddress :=
  (text? d).bind Net.SocketAddress.parse?

def Document.url? {δ : Type} [Document δ] (d : δ) : Option Net.Url :=
  (text? d).bind Net.Url.parse?

namespace Config

structure GraphiteTarget where
  address : Net.SocketAddress
  prefixes : Graphite.Prefixes := {}
  tagStyle : Graphite.TagStyle := .graphite
  deriving DecidableEq

namespace GraphiteTarget

def fieldNames : List String :=
  ["address", "prefix_counter", "prefix_gauge", "prefix_set", "prefix_timer", "global_prefix",
    "tag_style"]

def ofJson? (j : Json) : Option GraphiteTarget := do
  let [address, counter, gauge, set, timer, global, tagStyle] ← record? fieldNames j | none
  let default : Graphite.Prefixes := {}
  some
    { address := ← required socket? address
      prefixes :=
        { counter := ← orElse default.counter text? counter
          gauge := ← orElse default.gauge text? gauge
          set := ← orElse default.set text? set
          timer := ← orElse default.timer text? timer
          global := ← orElse default.global text? global }
      tagStyle := ← orElse .graphite (choose? Graphite.TagStyle.ofName?) tagStyle }

def fields (t : GraphiteTarget) : List (String × Json) :=
  [("address", .str t.address.text),
    ("prefix_counter", .str t.prefixes.counter),
    ("prefix_gauge", .str t.prefixes.gauge),
    ("prefix_set", .str t.prefixes.set),
    ("prefix_timer", .str t.prefixes.timer),
    ("global_prefix", .str t.prefixes.global),
    ("tag_style", .str t.tagStyle.name)]

def format (t : GraphiteTarget) (disabled : DisabledFigures) : Graphite.Format :=
  { prefixes := t.prefixes, tagStyle := t.tagStyle, disabled }

end GraphiteTarget

inductive Backend where
  | stdout (path : Option String)
  | graphite (target : GraphiteTarget)
  | http (url : Net.Url) (skipEmpty : Bool)
  | blackhole
  deriving DecidableEq

namespace Backend

def name : Backend → String
  | .stdout _ => "stdout"
  | .graphite _ => "graphite"
  | .http .. => "http"
  | .blackhole => "blackhole"

def ofTyped? (type : String) (rest : Json) : Option Backend := do
  if type = "stdout" then
    let [path] ← record? ["path"] rest | none
    (optional text? path).map .stdout
  else if type = "graphite" then (GraphiteTarget.ofJson? rest).map .graphite
  else if type = "http" then
    let [url, skipEmpty] ← record? ["url", "skip_empty"] rest | none
    some (.http (← required url? url) (← orElse false flag? skipEmpty))
  else if type = "blackhole" ∨ type = "null" then some .blackhole
  else none

def ofDocument? {δ : Type} [Document δ] (d : δ) : Option Backend := do
  let (type, rest) ← typed? d
  ofTyped? type rest

def toJson : Backend → Json
  | .stdout path =>
    .obj <| ("type", .str "stdout") :: (path.elim [] fun p => [("path", .str p)])
  | .graphite target => .obj <| ("type", .str "graphite") :: target.fields
  | .http url skipEmpty =>
    .obj [("type", .str "http"), ("url", .str url.text), ("skip_empty", .bool skipEmpty)]
  | .blackhole => .obj [("type", .str "blackhole")]

end Backend

end Config

end StatsDaemon
