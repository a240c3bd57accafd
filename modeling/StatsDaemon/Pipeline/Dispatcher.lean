import StatsDaemon.Event
import StatsDaemon.Metric
import StatsDaemon.Pipeline.Queue

namespace StatsDaemon.Pipeline

structure Share (α : Type) where
  metrics : List (KeyedMetric α) := []
  events : List Event := []

namespace Share

variable {α : Type}

def isEmpty (s : Share α) : Bool :=
  s.metrics.isEmpty && s.events.isEmpty

def of (metrics : List (KeyedMetric α)) (events : List (Nat × Event)) (workers worker : Nat) :
    Share α :=
  { metrics := metrics.filter fun m => m.key.shard workers == worker
    events := (events.filter fun e => e.1 == worker).map Prod.snd }

end Share

structure Loss where
  metrics : Nat := 0
  events : Nat := 0
  deriving DecidableEq

namespace Loss

def add (a b : Loss) : Loss :=
  ⟨a.metrics + b.metrics, a.events + b.events⟩

def total (l : Loss) : Nat :=
  l.metrics + l.events

end Loss

structure Dispatcher (α : Type) where
  queues : List (Queue (Share α))
  -- Counts the events, to choose the worker of the next one.
  rotation : UInt64 := 0

namespace Dispatcher

variable {α : Type}

def ofWorkers (workers capacity : Nat) : Dispatcher α :=
  { queues := List.replicate workers (.ofCapacity capacity) }

def workers (d : Dispatcher α) : Nat :=
  d.queues.length

def depths (d : Dispatcher α) : List Nat :=
  d.queues.map Queue.depth

def assign (workers : Nat) : UInt64 → List Event → List (Nat × Event)
  | _, [] => []
  | rotation, event :: rest => (rotation.toNat % workers, event) :: assign workers (rotation + 1) rest

-- Puts a share into its queue. An empty one is left out, and one without room is lost.
def enqueue (q : Queue (Share α)) (share : Share α) : Queue (Share α) × Loss :=
  if share.isEmpty then (q, {})
  else match q.offer? share with
    | some q => (q, {})
    | none => (q, ⟨share.metrics.length, share.events.length⟩)

def enqueueAll (share : Nat → Share α) : Nat → List (Queue (Share α)) → List (Queue (Share α)) × Loss
  | _, [] => ([], {})
  | worker, q :: rest =>
    let (q, loss) := enqueue q (share worker)
    let (rest, more) := enqueueAll share (worker + 1) rest
    (q :: rest, loss.add more)

-- Routes the records of one buffer. Without workers nothing happens.
def dispatch (d : Dispatcher α) (metrics : List (KeyedMetric α)) (events : List Event) :
    Dispatcher α × Loss :=
  if d.queues.isEmpty then (d, {})
  else
    let assigned := assign d.workers d.rotation events
    let (queues, loss) := enqueueAll (Share.of metrics assigned d.workers) 0 d.queues
    ({ queues, rotation := d.rotation + .ofNat events.length }, loss)

theorem length_enqueueAll (share : Nat → Share α) (worker : Nat) (queues : List (Queue (Share α))) :
    (enqueueAll share worker queues).1.length = queues.length := by
  induction queues generalizing worker with
  | nil => rfl
  | cons q rest ih => simp [enqueueAll, ih]

end Dispatcher

end StatsDaemon.Pipeline
