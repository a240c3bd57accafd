import StatsDaemon.Pipeline.Intake
import StatsDaemon.Schedule.Directory
import StatsDaemon.Schedule.Late

namespace StatsDaemon.Schedule

open Flush Pipeline

-- The services run whenever time passes, and each of them does all that is due.
structure Stages where
  intake : Intake
  workers : List (Worker Binary64)
  source : HostScript
  journal : Journal := {}

namespace Stages

def start (c : Config) (hosts : Option HostScript) (now : Nat) : Stages :=
  let directory := c.cloud.map fun cloud => Hosts.Directory.start cloud now
  let source := match hosts, c.cloud with
    | some script, _ => script
    | none, some cloud => .ofSource cloud.source
    | none, none => .unreachable
  let dispatcher := .ofWorkers c.aggregation.workers c.aggregation.queueSize
  { intake := .start c.rules { dispatcher, hosts := directory } now
    workers := List.replicate c.aggregation.workers (.start c.aggregation now)
    source }

def tell (s : Stages) (journal : Journal) : Stages :=
  { s with journal := s.journal ++ journal }

def receive (s : Stages) (batch : List Datagram) (now : Nat) : Stages :=
  let (intake, journal) := s.intake.receive batch now
  { s with intake }.tell journal

def receiveOwn (s : Stages) (packet : List UInt8) (now : Nat) : Stages :=
  let (delivery, measurements) := Intake.receiveOwn s.intake.delivery packet now
  { s with intake := { s.intake with delivery } }.tell (.measured measurements)

def takeCounts (s : Stages) : Stages × Counts :=
  ({ s with intake := { s.intake with counts := {} } }, s.intake.counts)

def depths (s : Stages) : List Nat :=
  s.intake.delivery.dispatcher.depths

-- Steps of a scan until it is finished; each step inspects one entry at least.
def scan (now : Nat) : Nat → Worker Binary64 → Worker Binary64 × List Telemetry.Measurement
  | 0, w => (w, [])
  | fuel + 1, w =>
    if w.scanning then
      let (w, measurements) := w.expireStep now
      let (w, more) := scan now fuel w
      (w, measurements ++ more)
    else (w, [])

structure Turn where
  worker : Worker Binary64
  queue : Queue (Share Binary64)
  measurements : List Telemetry.Measurement

-- All that a worker has to do now: a scan begins if it is due, then the queue is emptied.
def settleWorker (now : Nat) (w : Worker Binary64) (q : Queue (Share Binary64)) : Turn :=
  let w := if w.ticker.isDue now && !w.scanning then w.startScan now else w
  let (q, queued) := q.drain
  let (w, measurements) := w.handleShares queued now
  let (w, more) := scan now (w.shard.entries.length + 1) w
  ⟨w, q, measurements ++ more⟩

def withWorkers (s : Stages) (turns : List Turn) : Stages :=
  let delivery := s.intake.delivery
  let dispatcher := { delivery.dispatcher with queues := turns.map Turn.queue }
  { s with
    workers := turns.map Turn.worker
    intake := { s.intake with delivery := { delivery with dispatcher } } }.tell
    (.measured (turns.flatMap Turn.measurements))

def settleWorkers (s : Stages) (now : Nat) : Stages :=
  s.withWorkers <|
    s.workers.zipWith (settleWorker now) s.intake.delivery.dispatcher.queues

def askWorkers (s : Stages) (drain : Bool) (now : Nat) :
    Stages × List Promise × List Telemetry.Measurement :=
  let answers := s.workers.zipWith (fun w q => w.handleFlush q drain now)
    s.intake.delivery.dispatcher.queues
  (s.withWorkers (answers.map fun (w, q, _, measurements) => ⟨w, q, measurements⟩),
    answers.map fun (_, _, report, _) => { answer := .given report, arrival := some now }, [])

instance : Pool Stages where
  ask := askWorkers
  takeCounts := takeCounts
  depths := depths

def directoryRun? (s : Stages) : Option DirectoryRun :=
  s.intake.delivery.hosts.map fun directory => { directory, source := s.source }

def settleHosts (s : Stages) (now : Nat) : Stages :=
  match s.directoryRun? with
  | none => s
  | some run =>
    let run := Timed.settle now run
    let delivery := { s.intake.delivery with hosts := some run.directory }
    { s with intake := { s.intake with delivery }, source := run.source }.tell run.journal

def dueTimes (s : Stages) : List Nat :=
  s.workers.map (fun w => w.ticker.next)
    ++ s.directoryRun?.elim [] (Timed.dueTimes (ω := DirectoryRun))

end Stages

abbrev PipelineRun := Service Stages

namespace PipelineRun

def start (c : Config) (backends : List Backend) (hosts : Option HostScript) (now : Nat) :
    PipelineRun :=
  Service.start (flushSettings c) (.start c hosts now) c.aggregation.workers backends now

def absorb (s : PipelineRun) : PipelineRun :=
  { s with pool := { s.pool with journal := {} } }.tell s.pool.journal

instance : Timed PipelineRun where
  settle now s :=
    let s := absorb { s with pool := (s.pool.settleHosts now).settleWorkers now }
    absorb (Service.settle s now)
  dueTimes s := (if s.runs then s.dueTimes else []) ++ s.pool.dueTimes

def receive (s : PipelineRun) (batch : List Datagram) (now : Nat) : PipelineRun :=
  absorb { s with pool := s.pool.receive batch now }

def receiveOwn (s : PipelineRun) (packets : List (List UInt8)) (now : Nat) : PipelineRun :=
  absorb { s with pool := packets.foldl (fun pool packet => pool.receiveOwn packet now) s.pool }

def takeCounts (s : PipelineRun) : PipelineRun × Counts :=
  let (pool, counts) := s.pool.takeCounts
  ({ s with pool }, counts)

-- Asks for a flush and waits for the batch. Unless it is the last, the queues are empty then.
def flush (drain : Bool) (now : Nat) (s : PipelineRun) : Nat × PipelineRun :=
  let s := if drain then s else Timed.settle now s
  let asked := { s with requests := s.requests.send drain, replies := [] }
  let (now, s) :=
    advanceUntil (fun s : PipelineRun => !s.replies.isEmpty) (answeredBy s now) now asked
  (now, Timed.settle now s)

-- Whether the service ends within some time once nobody can send to it any more.
def stopsWithin (milliseconds now : Nat) (s : PipelineRun) : Bool :=
  s.pending.all fun p => p.due ≤ now + milliseconds

end PipelineRun

end StatsDaemon.Schedule
