import StatsDaemon.Backends.Payload
import StatsDaemon.Receiver.Datagrams
import StatsDaemon.Receiver.Framing
import StatsDaemon.Schedule.Pipeline

namespace StatsDaemon.Schedule

open Pipeline Receiver

structure Connection where
  chunks : List (List UInt8)
  source : Net.IpAddress

def receiveOne (settings : Config.Receiver) (i : Intake) (d : Datagram) (now : Nat) : Intake :=
  let (counts, data) := receiveDatagram settings.maxPacketSize d.data i.counts
  let i := { i with counts }
  match data with
  | some data => (i.receive [{ d with data }] now).1
  | none => i

def receiveItemFrom (source : Net.IpAddress) (now : Nat) (i : Intake) (item : Item) : Intake :=
  let (counts, data) := receiveItem item i.counts
  let i := { i with counts }
  match data with
  | some data => (i.receive [⟨data, source⟩] now).1
  | none => i

def receiveConnection (settings : Config.Receiver) (i : Intake) (c : Connection) (now : Nat) :
    Intake :=
  (Framing.readAll settings.maxLineLength c.chunks).foldl (receiveItemFrom c.source now) i

def collectingIntake (c : Config) : Intake :=
  .start c.rules { dispatcher := .ofWorkers 1 0x10000000000000000 } 0

def waitingRecords (i : Intake) : List (KeyedMetric Binary64) × List Event :=
  let shares := i.delivery.dispatcher.queues.flatMap Queue.items
  (shares.flatMap Share.metrics, shares.flatMap Share.events)

def lastBatch (c : Config) (own : List (List UInt8)) (connections : List Connection) :
    Batch Binary64 :=
  let s := PipelineRun.start c [{ name := "stdout" }] none 0
  let s := own.foldl (fun s packet => Timed.settle 0 (s.receiveOwn [packet] 0)) s
  let s := connections.foldl (fun s connection =>
    let intake := receiveConnection c.receiver s.pool.intake connection 0
    Timed.settle 0 { s with pool := { s.pool with intake } }) s
  let (_, s) := s.flush true 0
  s.replies.head?.getD ⟨0, [], [], [], [], []⟩

def lastOutput (c : Config) (own : List (List UInt8)) (connections : List Connection) : String :=
  Backends.linesOf { disabled := c.aggregation.disabled } (lastBatch c own connections)

end StatsDaemon.Schedule
