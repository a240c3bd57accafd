import StatsDaemon.Hosts.Cache
import StatsDaemon.Hosts.Lookup
import StatsDaemon.Journal
import StatsDaemon.Mailbox
import StatsDaemon.Telemetry.Catalog
import StatsDaemon.Ticker

namespace StatsDaemon.Hosts

structure Directory where
  settings : Config.Cloud
  cache : Cache := {}
  -- Hosts whose lookup is requested or runs.
  pending : List String := []
  requests : Mailbox String := {}
  running : List Lookup := []
  ticker : Ticker

namespace Directory

-- A directory that starts at an instant, with its first tick due at once. Without a period between
-- its ticks the service fails before it takes a request.
def start (settings : Config.Cloud) (now : Nat) : Directory :=
  { settings
    cache := { epoch := now }
    requests := { isOpen := settings.refresh != 0 }
    ticker := ⟨now, settings.refresh * 1000⟩ }

inductive Reservation where
  | reserved
  | alreadyPending
  | full
  deriving DecidableEq

def reserve (d : Directory) (host : String) : Directory × Reservation :=
  if d.pending.contains host then (d, .alreadyPending)
  else if d.settings.maxPendingLookups ≤ d.pending.length then (d, .full)
  else ({ d with pending := d.pending ++ [host] }, .reserved)

def request (d : Directory) (host : String) : Directory × List Telemetry.Measurement :=
  match d.reserve host with
  | (d, .reserved) => ({ d with requests := d.requests.send host }, [])
  | (d, .alreadyPending) => (d, [])
  | (d, .full) => (d, [Telemetry.lookupsDropped])

-- Extends tags by those of a host, and requests a lookup if the host is unknown or stale.
def apply (d : Directory) (host : String) (tags : Tags) (now : Nat) :
    Directory × CacheStatus × Tags × List Telemetry.Measurement :=
  let (cache, found) := d.cache.apply host tags now
  let d := { d with cache }
  if found.isStale then
    let (d, measurements) := d.request host
    (d, found.status, found.tags, measurements)
  else (d, found.status, found.tags, [])

def runs (d : Directory) : Bool :=
  d.requests.isOpen

-- The service fails, with the requests that wait and the lookups that run.
def stop (d : Directory) : Directory :=
  { d with requests := d.requests.close, running := [] }

def mayStart (d : Directory) : Bool :=
  d.running.length < max d.settings.maxConcurrentLookups 1

def lifetime (d : Directory) : Answer → Nat
  | .ok (some _) => d.settings.refresh * 1000
  | _ => d.settings.negativeLifetime * 1000

def foundTags : Answer → Option Tags
  | .ok (some tags) => some (.ofList tags)
  | _ => none

def release (d : Directory) (host : String) : Directory :=
  { d with pending := d.pending.erase host }

-- Whether the clock can tell the end of the lifetime of an answer.
def keeps (d : Directory) (answer : Answer) (now : Nat) : Bool :=
  now + d.lifetime answer ≤ lastInstant

def enter (d : Directory) (host : String) (answer : Answer) (now : Nat) : Directory :=
  if d.keeps answer now then
    { d with cache := d.cache.insert host (foundTags answer) (now + d.lifetime answer) now }
  else d.stop

theorem runs_enter (d : Directory) (host : String) (answer : Answer) (now : Nat) :
    (d.enter host answer now).runs = (d.runs && d.keeps answer now) := by
  unfold enter
  split <;> simp_all [runs, stop, Mailbox.close]

def finish (d : Directory) (host : String) (answer : Answer) (now : Nat) : Directory × Journal :=
  let journal : Journal :=
    { log := match answer with
        | .error fault => [⟨.warn, "cloud lookup failed", some fault.message⟩]
        | .ok _ => []
      measurements := [Telemetry.lookup (outcome answer)] }
  ((d.release host).enter host answer now, journal)

def startLookup (d : Directory) (host : String) (reply : Reply) (now : Nat) : Directory :=
  { d with running := d.running ++ [.start host reply d.settings.lookupTimeout now] }

def answer (d : Directory) (host : String) (answer : Answer) (now : Nat) : Directory :=
  { d with
    running := d.running.map fun l =>
      if l.host = host then { l with due := min l.due now, answer } else l }

def sweep (d : Directory) (now : Nat) : Directory × Journal :=
  let (cache, _) := d.cache.evict (d.settings.evict * 1000) now
  ({ d with cache },
    .measured
      [Telemetry.cacheSize cache.entries.length, Telemetry.lookupsInFlight d.running.length])

def tick (d : Directory) (now : Nat) : Directory × Journal :=
  match d.ticker.advance? now with
  | some ticker => { d with ticker }.sweep now
  | none => (d.stop, {})

end Directory

end StatsDaemon.Hosts
