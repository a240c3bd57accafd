import StatsDaemon.Backends.Payload
import StatsDaemon.Receiver.Datagrams
import StatsDaemon.Receiver.Framing
import StatsDaemon.Schedule.Pipeline
import StatsDaemon.Shutdown

namespace StatsDaemon

open Pipeline Receiver

inductive Happening where
  | datagrams (batch : List Datagram)
  | items (source : Net.IpAddress) (batch : List Item)
  | readFailed (reason : String)
  | delivered (number : Nat) (failure : Option String)
  | answered (host : String) (answer : Hosts.Answer)
  | interrupted (signal : Signal)
  -- Nothing but time has passed.
  | waited

structure Orders where
  -- Texts to be written or sent, by the numbers of their submissions.
  deliveries : List (Nat × Backends.Target × String) := []
  lookups : List String := []
  log : List Logging.Entry := []

structure Live where
  config : Config
  run : Schedule.PipelineRun
  client : Telemetry.Client
  -- Running lookups that were handed out, with their ends.
  handedOut : List (String × Nat) := []
  random : StdGen

namespace Live

-- Where the directory asks for hosts; what a table knows needs nobody outside.
def hostsOf (c : Config) : Option Schedule.HostScript :=
  c.cloud.map fun cloud =>
    match cloud.source with
    | .static hosts => .table hosts
    | .http _ => .remote cloud.lookupTimeout

def start (c : Config) (machine : Option String) (timestamp : Nat → Nat) (seed now : Nat) : Live :=
  let backends := c.backends.map fun b => { name := b.name, otherwise := .stuck : Flush.Backend }
  let run := Schedule.PipelineRun.start c backends (hostsOf c) now
  { config := c
    run := { run with settings := { run.settings with timestamp } }
    client := c.internal.client machine
    random := mkStdGen seed }

def counts (l : Live) : Counts :=
  l.run.pool.intake.counts

def withCounts (l : Live) (counts : Counts) : Live :=
  let pool := l.run.pool
  { l with run := { l.run with pool := { pool with intake := { pool.intake with counts } } } }

def receive {β : Type} (l : Live) (read : β → Counts → Counts × Option Datagram) (batch : List β)
    (now : Nat) : Live :=
  let (counts, kept) := batch.foldl (fun (counts, kept) item =>
    let (counts, datagram) := read item counts
    (counts, kept ++ datagram.toList)) (l.counts, [])
  let l := l.withCounts counts
  if kept.isEmpty then l else { l with run := l.run.receive kept now }

def take (l : Live) (h : Happening) (now : Nat) : Live :=
  match h with
  | .datagrams batch =>
    l.receive (fun d counts =>
      let (counts, data) := receiveDatagram l.config.receiver.maxPacketSize d.data counts
      (counts, data.map fun data => { d with data })) batch now
  | .items source batch =>
    l.receive (fun item counts =>
      let (counts, data) := receiveItem item counts
      (counts, data.map fun data => ⟨data, source⟩)) batch now
  | .readFailed reason =>
    let l := l.withCounts { l.counts with readErrors := l.counts.readErrors + 1 }
    { l with
      run := l.run.tell (.entry ⟨.warn, "failed to read from socket", some reason⟩) }
  | .delivered number failure => { l with run := l.run.report number failure now }
  | .answered host answer =>
    let pool := l.run.pool
    let delivery := pool.intake.delivery
    let hosts := delivery.hosts.map fun directory => directory.answer host answer now
    let intake := { pool.intake with delivery := { delivery with hosts } }
    { l with run := { l.run with pool := { pool with intake } } }
  | .interrupted signal =>
    match signal.mode with
    | .graceful => { l with run := { l.run with requests := l.run.requests.send true } }
    | .immediate => l
  | .waited => l

def draw (random : StdGen) : Binary64 × StdGen :=
  let unit := 0x20000000000000
  let (n, random) := randNat random 0 (unit - 1)
  (Binary64.ofNat n / Binary64.ofNat unit, random)

def sample (client : Telemetry.Client) :
    StdGen → List Telemetry.Measurement → List Telemetry.Measurement × StdGen
  | random, [] => ([], random)
  | random, m :: rest =>
    let (drawn, random) := draw random
    let (rest, random) := sample client random rest
    (if client.passes drawn then m :: rest else rest, random)

def measure (l : Live) (measurements : List Telemetry.Measurement) (now : Nat) :
    Live × List Logging.Entry :=
  match l.config.internal.sink with
  | .null => (l, [])
  | sink =>
    let (sampled, random) := sample l.client l.random measurements
    let l := { l with random }
    let lines := l.client.lines sampled
    if sink = .logging then (l, lines.map fun line => ⟨.info, line, none⟩)
    else
      let packets := (lines.take l.config.internal.queueSize).map fun line => line.toUTF8.toList
      ({ l with run := l.run.receiveOwn packets now }, [])

-- Batches that were handed over, as texts for their backends; empty ones are done at once.
def deliver (l : Live) (now : Nat) : Live × List (Nat × Backends.Target × String) :=
  let first := l.run.submitted - l.run.sent.length
  let payloads := l.run.sent.mapIdx fun i (_, batch) =>
    let number := first + i
    (number, l.config.backends[number % l.config.backends.length]?.bind fun b =>
      Backends.payload? l.config.aggregation.disabled b batch)
  let run := payloads.foldl (fun run (number, payload) =>
    if payload.isNone then run.report number none now else run) { l.run with sent := [] }
  ({ l with run },
    payloads.filterMap fun (number, payload) => payload.map fun (target, text) => (number, target, text))

def lookUp (l : Live) : Live × List String :=
  match l.config.cloud.map Config.Cloud.source, l.run.pool.intake.delivery.hosts with
  | some (.http _), some directory =>
    let running := directory.running.map fun lookup => (lookup.host, lookup.due)
    ({ l with handedOut := running },
      (running.filter fun lookup => !l.handedOut.contains lookup).map Prod.fst)
  | _, _ => (l, [])

-- Takes in what happened, runs all services, and says what is to be done.
def step (l : Live) (h : Happening) (now : Nat) : Live × Orders :=
  let l := l.take h now
  let l := { l with run := Schedule.Timed.settle now l.run }
  let (l, deliveries) := l.deliver now
  let l := { l with run := Schedule.Timed.settle now l.run }
  let (l, lookups) := l.lookUp
  let journal := l.run.journal
  let (l, measured) := { l with run := { l.run with journal := {} } }.measure journal.measurements now
  (l, { deliveries, lookups, log := journal.log ++ measured })

def due? (l : Live) (now : Nat) : Option Nat :=
  Schedule.nextAfter? now (Schedule.Timed.dueTimes l.run)

def isFinished (l : Live) : Bool :=
  !l.run.replies.isEmpty

end Live

end StatsDaemon
