import StatsDaemon.Config.Backends

namespace StatsDaemon.Config

inductive HostSource where
  -- A fixed table, in the order of its hosts.
  | static (hosts : List (String × List String))
  | http (url : Net.Url)
  deriving DecidableEq

namespace HostSource

open Document

-- Enters a host into a table; a later entry replaces an earlier one.
def insertHost (host : String) (tags : List String) :
    List (String × List String) → List (String × List String)
  | [] => [(host, tags)]
  | (other, known) :: rest =>
    if host < other then (host, tags) :: (other, known) :: rest
    else if host = other then (host, tags) :: rest
    else (other, known) :: insertHost host tags rest

def hosts? (j : Json) : Option (List (String × List String)) := do
  let entries ← (← fields? j).mapM fun (host, tags) => (texts? tags).map (host, ·)
  some (entries.foldl (fun table (host, tags) => insertHost host tags table) [])

def ofTyped? (type : String) (rest : Json) : Option HostSource :=
  if type = "static" then do
    let [hosts] ← record? ["hosts"] rest | none
    (orElse [] hosts? hosts).map .static
  else if type = "http" then do
    let [url] ← record? ["url"] rest | none
    (required url? url).map .http
  else none

def ofDocument? {δ : Type} [Document δ] (d : δ) : Option HostSource := do
  let (type, rest) ← typed? d
  ofTyped? type rest

def toJson : HostSource → Json
  | .static hosts =>
    .obj
      [("type", .str "static"),
        ("hosts", .obj (hosts.map fun (host, tags) => (host, .strings tags)))]
  | .http url => .obj [("type", .str "http"), ("url", .str url.text)]

end HostSource

-- Lifetimes of the cache are in seconds.
structure Cloud where
  source : HostSource
  -- Lifetime of tags that were found.
  refresh : Nat := 300
  -- Lifetime of a lookup that found nothing.
  negativeLifetime : Nat := 60
  -- Time without use after which a host is forgotten.
  evict : Nat := 3600
  maxConcurrentLookups : Nat := 32
  maxPendingLookups : Nat := 10000
  -- In milliseconds.
  lookupTimeout : Nat := 5000
  deriving DecidableEq

namespace Cloud

open Document

def fieldNames : List String :=
  ["provider", "cache_refresh", "cache_negative_ttl", "cache_evict", "max_concurrent_lookups",
    "max_pending_lookups", "lookup_timeout_ms"]

def ofDocument? {δ : Type} [Document δ] (d : δ) : Option Cloud := do
  let [source, refresh, negativeLifetime, evict, maxConcurrentLookups, maxPendingLookups,
    lookupTimeout] ← record? fieldNames d | none
  let default : Cloud := { source := ← required HostSource.ofDocument? source }
  some
    { source := default.source
      refresh := ← orElse default.refresh natural? refresh
      negativeLifetime := ← orElse default.negativeLifetime natural? negativeLifetime
      evict := ← orElse default.evict natural? evict
      maxConcurrentLookups := ← orElse default.maxConcurrentLookups natural? maxConcurrentLookups
      maxPendingLookups := ← orElse default.maxPendingLookups natural? maxPendingLookups
      lookupTimeout := ← orElse default.lookupTimeout natural? lookupTimeout }

def toJson (c : Cloud) : Json :=
  .obj
    [("provider", c.source.toJson),
      ("cache_refresh", .ofNat c.refresh),
      ("cache_negative_ttl", .ofNat c.negativeLifetime),
      ("cache_evict", .ofNat c.evict),
      ("max_concurrent_lookups", .ofNat c.maxConcurrentLookups),
      ("max_pending_lookups", .ofNat c.maxPendingLookups),
      ("lookup_timeout_ms", .ofNat c.lookupTimeout)]

end Cloud

end StatsDaemon.Config
