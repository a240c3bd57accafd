import StatsDaemon.Due
import StatsDaemon.Flush.Collect
import StatsDaemon.Flush.Submission
import StatsDaemon.Mailbox
import StatsDaemon.Pipeline.Counts
import StatsDaemon.Version

namespace StatsDaemon.Flush

structure Settings where
  interval : Nat
  workerTimeout : Nat
  backendTimeout : Nat
  thresholds : List Binary64
  heartbeat : Bool
  -- What batches are stamped with at a time.
  timestamp : Nat → Nat := fun _ => 0

structure Promise where
  answer : Answer Binary64
  -- When it gives the answer, if ever.
  arrival : Option Nat
  -- Whether the service has not waited since the request, so that it cannot have an answer.
  fresh : Bool := true

def Promise.seen (now : Nat) (p : Promise) : Answer Binary64 :=
  match p.arrival with
  | some time => if time ≤ now && !p.fresh then p.answer else .awaited
  | none => .awaited

structure Backend where
  name : String
  script : List Delivery := []
  otherwise : Delivery := .done 0

def Backend.next (b : Backend) : Backend × Delivery :=
  match b.script with
  | [] => (b, b.otherwise)
  | delivery :: script => ({ b with script }, delivery)

class Pool (π : Type) where
  -- Asks every worker for a report, the last one of all or not.
  ask : π → Bool → Nat → π × List Promise × List Telemetry.Measurement
  -- Takes the counts of the stages in front of the workers.
  takeCounts : π → π × Pipeline.Counts
  depths : π → List Nat

inductive Occasion where
  | tick
  -- A message that is answered with the batch; the last one asks the workers to drain.
  | message (drain : Bool)
  deriving DecidableEq

def Occasion.drains : Occasion → Bool
  | .tick => false
  | .message drain => drain

inductive Phase where
  | idle
  | collecting (deadline : Nat) (occasion : Occasion)
  -- All backends have to end before the batch is handed out.
  | finishing (batch : Batch Binary64)

-- The next cycle does not wait for slow backends; only the last flush of the daemon does.
structure Service (π : Type) where
  settings : Settings
  pool : π
  backends : List Backend
  ticker : Ticker
  -- Requests to each worker that are not settled.
  outstanding : List (List Promise)
  pending : List Submission := []
  submitted : Nat := 0
  phase : Phase := .idle
  -- Messages that wait, each the last one or not.
  requests : Mailbox Bool := {}
  journal : Journal := {}
  sent : List (String × Batch Binary64) := []
  -- Batches as they were handed out to those who asked.
  replies : List (Batch Binary64) := []

namespace Service

variable {π : Type} [Pool π]

omit [Pool π] in
def start (settings : Settings) (pool : π) (workers : Nat) (backends : List Backend) (now : Nat) :
    Service π :=
  { settings, pool, backends
    ticker := .after now settings.interval
    outstanding := List.replicate workers [] }

omit [Pool π] in
def tell (s : Service π) (journal : Journal) : Service π :=
  { s with journal := s.journal ++ journal }

omit [Pool π] in
-- Without a period between its ticks the service cannot run.
def runs (s : Service π) : Bool :=
  s.ticker.period != 0

def beginCycle (s : Service π) (occasion : Occasion) (now : Nat) : Service π :=
  let (pool, promises, measurements) := Pool.ask s.pool occasion.drains now
  { s with
    pool
    outstanding := s.outstanding.zipWith (fun requests p => requests ++ [p]) promises
    phase := .collecting (now + s.settings.workerTimeout) occasion }.tell (.measured measurements)

def statusJournal (worker : Nat) : Status → Journal
  | .complete => {}
  | .late =>
    { log := [⟨.warn, "aggregation worker did not respond to flush in time", none⟩]
      measurements := [Telemetry.workerTimeout worker] }
  | .closed => .entry ⟨.error, "aggregation worker is not running", none⟩

omit [Pool π] in
def submit (s : Service π) (batch : Batch Binary64) (now : Nat) : Service π :=
  let next := s.backends.map Backend.next
  { s with
    backends := next.map Prod.fst
    pending := s.pending ++ next.mapIdx fun i (b, delivery) =>
      ⟨s.submitted + i, b.name, delivery, now, now + s.settings.backendTimeout⟩
    submitted := s.submitted + next.length
    sent := s.sent ++ next.map fun (b, _) => (b.name, batch) }

def measure (s : Service π) (identities : Nat) : Service π :=
  let (pool, counts) := Pool.takeCounts s.pool
  let depths := (Pool.depths pool).mapIdx Telemetry.queueDepth
  let beat := if s.settings.heartbeat then [Telemetry.heartbeat version] else []
  { s with pool }.tell
    (.measured (counts.measurements ++ depths ++ [Telemetry.identities identities] ++ beat))

omit [Pool π] in
-- Lets go of what the workers have answered; the rest can be answered from now on.
def keepRequests (s : Service π) (collected : List (Collected Binary64 Promise)) : Service π :=
  { s with
    outstanding := collected.map fun c => c.requests.map fun p => { p with fresh := false } }

def endCycle (s : Service π) (occasion : Occasion) (collected : List (Collected Binary64 Promise))
    (now : Nat) : Service π :=
  let reports := collected.filterMap Collected.report
  let batch := batchOf reports s.settings.thresholds s.settings.interval
    (s.settings.timestamp now)
  let s := (s.keepRequests collected).tell
    (.concat (collected.mapIdx fun worker c => statusJournal worker c.status))
  let s := (s.submit batch now).measure (identitiesOf reports)
  match occasion with
  | .tick => { s with phase := .idle }
  | .message false => { s with phase := .idle, replies := s.replies ++ [batch] }
  | .message true => { s with phase := .finishing batch }

omit [Pool π] in
def collected (s : Service π) (now : Nat) : List (Collected Binary64 Promise) :=
  s.outstanding.map (collect (Promise.seen now) none)

omit [Pool π] in
-- Waits, so that answers to new requests can arrive.
def await (s : Service π) : Service π :=
  { s with outstanding := s.outstanding.map (List.map fun p => { p with fresh := false }) }

omit [Pool π] in
def hasFresh (s : Service π) : Bool :=
  s.outstanding.any (List.any · Promise.fresh)

omit [Pool π] in
def report (s : Service π) (number : Nat) (failure : Option String) (now : Nat) : Service π :=
  { s with
    pending := s.pending.map fun p => if p.number = number then p.report failure now else p }

omit [Pool π] in
def completeOne? (s : Service π) (now : Nat) : Option (Service π) :=
  (Due.take? Submission.due now s.pending).map fun (p, pending) =>
    { s with pending }.tell ((p.result now).journal p.backend)

def step? (s : Service π) (now : Nat) : Option (Service π) :=
  match s.phase with
  | .idle =>
    match s.completeOne? now with
    | some s => some s
    | none =>
      match s.requests.receive? with
      | some (drain, requests) => some ({ s with requests }.beginCycle (.message drain) now)
      | none =>
        if s.ticker.isDue now then
          some ({ s with ticker := s.ticker.skip now }.beginCycle .tick now)
        else none
  | .collecting deadline occasion =>
    let collected := s.collected now
    if deadline ≤ now || collected.all (fun c => c.status != .late) then
      some (s.endCycle occasion collected now)
    else if s.hasFresh then some s.await
    else none
  | .finishing batch =>
    match s.completeOne? now with
    | some s => some s
    | none =>
      if s.pending.isEmpty then
        some { s with phase := .idle, replies := s.replies ++ [batch] }
      else none

omit [Pool π] in
def dueTimes (s : Service π) : List Nat :=
  match s.phase with
  | .idle => s.ticker.next :: s.pending.map Submission.due
  | .collecting deadline _ => deadline :: s.outstanding.flatten.filterMap Promise.arrival
  | .finishing _ => s.pending.map Submission.due

omit [Pool π] in
-- A bound on the steps at one time. Ticks due and messages begin cycles, each of which takes three
-- steps and a step for every backend.
def stepBound (s : Service π) (now : Nat) : Nat :=
  let cycles := s.requests.waiting.length + (now + 1 - s.ticker.next) + 1
  s.pending.length + cycles * (s.backends.length + 4)

def steps (now : Nat) : Nat → Service π → Service π
  | 0, s => s
  | fuel + 1, s =>
    match s.step? now with
    | some s => steps now fuel s
    | none => s

def settle (s : Service π) (now : Nat) : Service π :=
  if s.runs then steps now (s.stepBound now) s else s

end Service

end StatsDaemon.Flush
