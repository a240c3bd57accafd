import StatsDaemon.Config
import StatsDaemon.Flush.Service
import StatsDaemon.Schedule.Timed

namespace StatsDaemon.Schedule

open Flush

inductive WorkerReply where
  | report (delay : Nat) (given : Report Binary64)
  | drop
  | hold

def WorkerReply.promise (r : WorkerReply) (now : Nat) : Promise :=
  match r with
  | .report delay given => { answer := .given given, arrival := some (now + delay) }
  | .drop => { answer := .dropped, arrival := some now }
  | .hold => { answer := .awaited, arrival := none }

-- A worker without further replies has nothing to report, and says so at once.
def WorkerReply.empty : WorkerReply :=
  .report 0 ⟨{}, 0⟩

structure ScriptedWorkers where
  scripts : List (List WorkerReply)

instance : Pool ScriptedWorkers where
  ask w _ now :=
    (⟨w.scripts.map List.tail⟩,
      w.scripts.map fun script => (script.head?.getD .empty).promise now, [])
  takeCounts w := (w, {})
  depths w := w.scripts.map fun _ => 0

def flushSettings (c : Config) : Settings :=
  { interval := c.aggregation.flushInterval
    workerTimeout := c.aggregation.flushTimeout
    backendTimeout := c.limits.backendTimeout
    thresholds := c.aggregation.percentiles
    heartbeat := c.internal.heartbeat }

abbrev LateRun := Service ScriptedWorkers

namespace LateRun

def start (c : Config) (scripts : List (List WorkerReply)) (backends : List Backend) (now : Nat) :
    LateRun :=
  Service.start (flushSettings c) ⟨scripts⟩ scripts.length backends now

instance : Timed LateRun where
  settle now s := s.settle now
  dueTimes s := if s.runs then s.dueTimes else []

end LateRun

-- By when a message that is sent now is answered.
def answeredBy {π : Type} (s : Service π) (now : Nat) : Nat :=
  now + 2 * s.settings.workerTimeout + s.settings.backendTimeout

def flush (drain : Bool) (now : Nat) (s : LateRun) : Nat × LateRun :=
  let asked := { s with requests := s.requests.send drain, replies := [] }
  advanceUntil (fun s : LateRun => !s.replies.isEmpty) (answeredBy s now) now asked

end StatsDaemon.Schedule
