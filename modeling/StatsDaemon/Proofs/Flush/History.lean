import StatsDaemon.Proofs.Snapshot.Merge
import StatsDaemon.Schedule.Late

namespace StatsDaemon

open Flush Schedule

-- The reports that a worker has given by now, up to the first request without one.
def Flush.answered (now : Nat) : List Promise → List (Report Binary64)
  | [] => []
  | p :: rest =>
    match p.seen now with
    | .given report => report :: answered now rest
    | _ => []

def Flush.contribution? : List (Report Binary64) → Option (Report Binary64)
  | [] => none
  | first :: rest => some (rest.foldl (fun earlier later =>
      ⟨earlier.snapshot.merge later.snapshot, later.identities⟩) first)

structure Cycle where
  -- For each worker, the reports that were collected in the cycle.
  merged : List (List (Report Binary64))
  ended : Nat

def Cycle.batch (c : Cycle) (settings : Settings) : Batch Binary64 :=
  batchOf (c.merged.filterMap contribution?) settings.thresholds settings.interval
    (settings.timestamp c.ended)

structure History where
  begun : Nat := 0
  cycles : List Cycle := []

namespace Schedule

def WorkerReply.answer : WorkerReply → Answer Binary64
  | .report _ given => .given given
  | .drop => .dropped
  | .hold => .awaited

def replies (script : List WorkerReply) (requests : Nat) : List (Answer Binary64) :=
  (List.range requests).map fun i => (script[i]?.getD .empty).answer

namespace LateRun

inductive Move where
  | act (now : Nat)
  | send (drain : Bool)
  | report (number : Nat) (failure : Option String) (now : Nat)

def perform (s : LateRun) : Move → LateRun
  | .act now => (s.step? now).getD s
  | .send drain => { s with requests := s.requests.send drain }
  | .report number failure now => s.report number failure now

def record (s : LateRun) (h : History) : Move → History
  | .act now =>
    match s.phase, (s.step? now).map Service.phase with
    | .idle, some (.collecting _ _) => { h with begun := h.begun + 1 }
    | .collecting _ _, some .idle | .collecting _ _, some (.finishing _) =>
      { h with cycles := h.cycles ++ [⟨s.outstanding.map (answered now), now⟩] }
    | _, _ => h
  | _ => h

def run : List Move → LateRun × History → LateRun × History
  | [], state => state
  | move :: rest, (s, h) => run rest (s.perform move, s.record h move)

end LateRun

end Schedule

end StatsDaemon
