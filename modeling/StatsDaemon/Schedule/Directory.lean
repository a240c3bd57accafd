import StatsDaemon.Due
import StatsDaemon.Hosts.Directory
import StatsDaemon.Schedule.Timed

namespace StatsDaemon.Schedule

open Hosts

-- A table of hosts, or replies written down beforehand.
inductive HostScript where
  | table (hosts : List (String × List String))
  | replies (scripts : List (String × List Reply))
  | unreachable
  -- A service that answers some time later; by the time limit at the latest, it has failed.
  | remote (timeout : Nat)

namespace HostScript

def takeReply (host : String) :
    List (String × List Reply) → Option Reply × List (String × List Reply)
  | [] => (none, [])
  | (other, script) :: rest =>
    if other = host then (script.head?, (other, script.tail) :: rest)
    else
      let (reply, rest) := takeReply host rest
      (reply, (other, script) :: rest)

-- Asks the source; a host without a reply is not known.
def ask (s : HostScript) (host : String) : HostScript × Reply :=
  match s with
  | .table hosts => (s, ⟨lookupStatic hosts host, 0⟩)
  | .replies scripts =>
    let (reply, scripts) := takeReply host scripts
    (.replies scripts, reply.getD ⟨.ok none, 0⟩)
  | .unreachable => (s, ⟨.error .request, 0⟩)
  | .remote timeout => (s, ⟨.error .timeout, timeout⟩)

def ofSource : Config.HostSource → HostScript
  | .static hosts => .table hosts
  | .http _ => .unreachable

end HostScript

structure DirectoryRun where
  directory : Directory
  source : HostScript
  journal : Journal := {}

namespace DirectoryRun

def start (settings : Config.Cloud) (source : HostScript) (now : Nat) : DirectoryRun :=
  { directory := .start settings now, source }

def finishOne? (r : DirectoryRun) (now : Nat) : Option DirectoryRun :=
  (Due.take? Lookup.due now r.directory.running).map fun (l, running) =>
    let (directory, journal) := { r.directory with running }.finish l.host l.answer now
    { r with directory, journal := r.journal ++ journal }

def startOne? (r : DirectoryRun) (now : Nat) : Option DirectoryRun :=
  if r.directory.mayStart then
    match r.directory.requests.receive? with
    | some (host, requests) =>
      let (source, reply) := r.source.ask host
      let d := { r.directory with requests }
      some { r with directory := d.startLookup host reply now, source }
    | none => none
  else none

-- Lookups that have ended come first, to make room for those that are requested.
def step? (r : DirectoryRun) (now : Nat) : Option DirectoryRun :=
  if r.directory.runs then
    match r.finishOne? now with
    | some r => some r
    | none =>
      match r.startOne? now with
      | some r => some r
      | none =>
        if r.directory.ticker.isDue now then
          let (directory, journal) := r.directory.tick now
          some { r with directory, journal := r.journal ++ journal }
        else none
  else none

-- A bound on the steps at one time: each lookup is started and ended once.
def stepBound (r : DirectoryRun) (now : Nat) : Nat :=
  2 * r.directory.requests.waiting.length + r.directory.running.length
    + (now + 1 - r.directory.ticker.next)

def steps (now : Nat) : Nat → DirectoryRun → DirectoryRun
  | 0, r => r
  | fuel + 1, r =>
    match r.step? now with
    | some r => steps now fuel r
    | none => r

instance : Timed DirectoryRun where
  settle now r := steps now (r.stepBound now) r
  dueTimes r :=
    if r.directory.runs then r.directory.ticker.next :: r.directory.running.map Lookup.due else []

def apply (r : DirectoryRun) (host : String) (tags : Tags) (now : Nat) :
    DirectoryRun × CacheStatus × Tags :=
  let (directory, status, tags, measurements) := r.directory.apply host tags now
  ({ r with directory, journal := r.journal ++ .measured measurements }, status, tags)

end DirectoryRun

end StatsDaemon.Schedule
