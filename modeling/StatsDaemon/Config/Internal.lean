import StatsDaemon.Document
import StatsDaemon.Telemetry.Client
import StatsDaemon.Text.Pieces

namespace StatsDaemon.Config

inductive Sink where
  -- Into the daemon's own aggregation.
  | internal
  | logging
  | null
  deriving DecidableEq, Repr

namespace Sink

def name : Sink → String
  | .internal => "internal"
  | .logging => "logging"
  | .null => "null"

def ofName? (name : String) : Option Sink :=
  if name = "internal" then some .internal
  else if name = "logging" then some .logging
  else if name = "null" then some .null
  else none

theorem ofName_name (s : Sink) : ofName? s.name = some s := by
  cases s <;> rfl

end Sink

structure Internal where
  sink : Sink := .internal
  scope : String := "statsd"
  tags : List String := []
  hostname : Option String := none
  heartbeat : Bool := false
  sampleRate : Binary64 := 1
  queueSize : Nat := 10000
  deriving DecidableEq

namespace Internal

open Document

-- Enters a tag under its key; a later value replaces an earlier one.
def insertTag (key value : String) : List (String × String) → List (String × String)
  | [] => [(key, value)]
  | (other, known) :: rest =>
    if key < other then (key, value) :: (other, known) :: rest
    else if key = other then (key, value) :: rest
    else (other, known) :: insertTag key value rest

-- The tags by their keys; a tag without a value has the empty one.
def tagTable (i : Internal) : List (String × String) :=
  i.tags.foldl (fun table tag =>
    match Text.cut ':' tag.toList with
    | some (key, value) => insertTag (String.ofList key) (String.ofList value) table
    | none => insertTag tag "" table) []

def client (i : Internal) (machine : Option String) : Telemetry.Client :=
  { scope := i.scope
    defaultTags := match i.hostname.or machine with
      | some host => insertTag "host" host i.tagTable
      | none => i.tagTable
    sampleRate := Telemetry.clampRate i.sampleRate }

def fieldNames : List String :=
  ["statser", "namespace", "tags", "hostname", "heartbeat_enabled", "sample_rate", "queue_size"]

def ofDocument? {δ : Type} [Document δ] (d : δ) : Option Internal := do
  let [sink, scope, tags, hostname, heartbeat, sampleRate, queueSize] ←
    record? fieldNames d | none
  let default : Internal := {}
  some
    { sink := ← orElse default.sink (choose? Sink.ofName?) sink
      scope := ← orElse default.scope text? scope
      tags := ← orElse default.tags texts? tags
      hostname := ← optional text? hostname
      heartbeat := ← orElse default.heartbeat flag? heartbeat
      sampleRate := ← orElse default.sampleRate real? sampleRate
      queueSize := ← orElse default.queueSize natural? queueSize }

def toJson (i : Internal) : Json :=
  .obj
    [("statser", .str i.sink.name),
      ("namespace", .str i.scope),
      ("tags", .strings i.tags),
      ("hostname", .ofString? i.hostname),
      ("heartbeat_enabled", .bool i.heartbeat),
      ("sample_rate", .real i.sampleRate),
      ("queue_size", .ofNat i.queueSize)]

end Internal

end StatsDaemon.Config
