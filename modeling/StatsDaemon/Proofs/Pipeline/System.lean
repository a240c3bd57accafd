import Mathlib
import StatsDaemon.Flush.Collect
import StatsDaemon.Proofs.Pipeline.Dispatch
import StatsDaemon.Worker

namespace StatsDaemon

open Pipeline

structure Request (α : Type) where
  drain : Bool
  reply : Option (Report α) := none

namespace Request

variable {α : Type}

def answer (r : Request α) : Flush.Answer α :=
  match r.reply with
  | none => .awaited
  | some report => .given report

def fill (report : Report α) : List (Request α) → List (Request α)
  | [] => []
  | r :: rest =>
    if r.reply.isNone then { r with reply := some report } :: rest else r :: fill report rest

end Request

-- A worker with its queue, and the requests to it that are not collected.
structure Site (α : Type) where
  worker : Worker α
  queue : Queue (Share α)
  requests : List (Request α) := []
  -- What the clock of the worker has shown last.
  reading : Nat
  -- When the worker made its last report, or when it started.
  since : Nat

namespace Site

variable {α : Type}

def start (c : Config.Aggregation) (now : Nat) : Site α :=
  { worker := .start c now, queue := .ofCapacity c.queueSize, reading := now, since := now }

def fold [Number α] (site : Site α) (now : Nat) : Site α :=
  match site.queue.items with
  | [] => { site with reading := now }
  | share :: rest =>
    { site with
      worker := (site.worker.handleShare share now).1
      queue := { site.queue with items := rest }
      reading := now }

def expire (site : Site α) (now : Nat) : Site α :=
  { site with worker := (site.worker.expireStep now).1, reading := now }

def answer [Number α] (site : Site α) (now : Nat) : Site α :=
  match site.requests.find? (·.reply.isNone) with
  | none => { site with reading := now }
  | some request =>
    let (worker, queue, report, _) := site.worker.handleFlush site.queue request.drain now
    { worker, queue, requests := Request.fill report site.requests, reading := now, since := now }

def ask (site : Site α) (drain : Bool) : Site α :=
  { site with requests := site.requests ++ [{ drain }] }

def collected [Number α] (site : Site α) : Flush.Collected α (Request α) :=
  Flush.collect Request.answer none site.requests

end Site

-- A cycle asks all workers, and collects what they have answered by its end. A worker answers when
-- it comes to it, maybe after the end of the cycle and maybe never.
structure System (α : Type) where
  sites : List (Site α)
  rotation : UInt64 := 0
  hosts : Option Hosts.Directory
  batches : List (Batch α) := []
  -- All metrics that were dispatched, with the tags of their hosts.
  dispatched : List (Metric α) := []
  -- All shares that found no room in their queues.
  refused : List (Share α) := []

inductive Action (α : Type) where
  | dispatch (records : Records α) (now : Nat)
  | learn (hosts : Option Hosts.Directory)
  | fold (worker now : Nat)
  | expire (worker now : Nat)
  | answer (worker now : Nat)
  | ask (drain : Bool)
  | collect (thresholds : List α) (interval timestamp : Nat)

namespace System

variable {α : Type}

def start (c : Config.Aggregation) (starts : List Nat) (hosts : Option Hosts.Directory) :
    System α :=
  { sites := starts.map (.start c), hosts }

def delivery (s : System α) : Delivery α :=
  ⟨⟨s.sites.map Site.queue, s.rotation⟩, s.hosts⟩

def dispatch (s : System α) (records : Records α) (now : Nat) : System α :=
  let (next, _) := s.delivery.deliver records now { counts := {} }
  { s with
    sites := (s.sites.zip next.dispatcher.queues).map fun (site, queue) => { site with queue }
    rotation := next.dispatcher.rotation
    hosts := next.hosts
    dispatched := s.dispatched ++ s.delivery.tagged records now
    refused := s.refused ++
      Dispatcher.refusals (s.delivery.share records now) 0 s.delivery.dispatcher.queues }

def collect [Number α] (s : System α) (thresholds : List α) (interval timestamp : Nat) :
    System α :=
  let collected := s.sites.map Site.collected
  let batch :=
    Flush.batchOf (collected.filterMap Flush.Collected.report) thresholds interval timestamp
  { s with
    sites := s.sites.map fun site => { site with requests := site.collected.requests }
    batches := s.batches ++ [batch] }

def step [Number α] (s : System α) : Action α → System α
  | .dispatch records now => s.dispatch records now
  | .learn hosts => { s with hosts }
  | .fold worker now => { s with sites := s.sites.modify worker (·.fold now) }
  | .expire worker now => { s with sites := s.sites.modify worker (·.expire now) }
  | .answer worker now => { s with sites := s.sites.modify worker (·.answer now) }
  | .ask drain => { s with sites := s.sites.map (·.ask drain) }
  | .collect thresholds interval timestamp => s.collect thresholds interval timestamp

def run [Number α] (s : System α) (actions : List (Action α)) : System α :=
  actions.foldl step s

-- No clock goes back, and when a worker looks for idle identities, not more time has passed since
-- its last report than a counter may be idle.
def Timely (c : Config.Aggregation) (s : System α) : Action α → Prop
  | .fold worker now => ∀ site ∈ s.sites[worker]?, site.reading ≤ now
  | .expire worker now | .answer worker now => ∀ site ∈ s.sites[worker]?, site.reading ≤ now ∧
      (c.expiryInterval .counter = 0 ∨ now - site.since ≤ c.expiryInterval .counter)
  | _ => True

def TimelyRun [Number α] (c : Config.Aggregation) : System α → List (Action α) → Prop
  | _, [] => True
  | s, a :: rest => s.Timely c a ∧ TimelyRun c (s.step a) rest

section

variable [ExactNumber α]

def flushed (s : System α) (x : Series) : α :=
  (s.batches.map (·.amount x)).sum

def inRefused (s : System α) (x : Series) : α :=
  (s.refused.map (·.amount x)).sum

-- The sum of value by sample rate, over all metrics of the identity that were dispatched.
def inDispatched (s : System α) (x : Series) : α :=
  (s.dispatched.map fun m => m.keyed.amount x).sum

end

end System

end StatsDaemon
