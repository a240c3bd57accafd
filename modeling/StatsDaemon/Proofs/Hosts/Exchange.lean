import StatsDaemon.Hosts.Directory

namespace StatsDaemon.Hosts

structure Errand where
  host : String
  ticket : Nat
  deriving DecidableEq

structure Finding where
  errand : Errand
  answer : Answer
  now : Nat

-- A reader reads the cache, enters the host among the pending ones and sends the request; the
-- service starts a lookup, removes the host from the pending ones and writes the cache. Others
-- may take their steps between any two of these.
structure Exchange where
  directory : Directory
  -- Hosts that readers found unknown or stale, before they look at the pending ones.
  undecided : List String := []
  -- Lookups whose hosts are pending, before the readers send the requests.
  sending : List Errand := []
  -- The lookups behind the messages that wait and behind those that run.
  queued : List Errand := []
  started : List Errand := []
  -- The lookups that a service which has failed leaves behind; their hosts stay pending for good.
  abandoned : List Errand := []
  -- The answer that the service takes in, and whether its host is still pending.
  settling : Option (Finding × Bool) := none
  issued : Nat := 0
  entered : List Finding := []

-- What happens next; readers and lookups are named by their positions.
inductive Move where
  | read (host : String) (tags : Tags) (now : Nat)
  | reserve (reader : Nat)
  | send (reader : Nat)
  | receive (reply : Reply) (now : Nat)
  | finish (lookup : Nat) (answer : Answer) (now : Nat)
  | release
  | enter
  | tick (now : Nat)

namespace Exchange

def start (settings : Config.Cloud) (now : Nat) : Exchange :=
  { directory := .start settings now }

def read (x : Exchange) (host : String) (tags : Tags) (now : Nat) : Exchange :=
  let (cache, found) := x.directory.cache.apply host tags now
  { x with
    directory := { x.directory with cache }
    undecided := if found.isStale then x.undecided ++ [host] else x.undecided }

def reserve (x : Exchange) (reader : Nat) : Exchange :=
  match x.undecided[reader]? with
  | none => x
  | some host =>
    let undecided := x.undecided.eraseIdx reader
    match x.directory.reserve host with
    | (directory, .reserved) =>
      { x with
        directory
        undecided
        sending := x.sending ++ [⟨host, x.issued⟩]
        issued := x.issued + 1 }
    | (directory, _) => { x with directory, undecided }

def send (x : Exchange) (reader : Nat) : Exchange :=
  match x.sending[reader]? with
  | none => x
  | some errand =>
    let directory := { x.directory with requests := x.directory.requests.send errand.host }
    let sending := x.sending.eraseIdx reader
    if x.directory.runs then { x with directory, sending, queued := x.queued ++ [errand] }
    else { x with directory, sending, abandoned := x.abandoned ++ [errand] }

def isReady (x : Exchange) : Bool :=
  x.settling.isNone && x.directory.mayStart

def receive (x : Exchange) (reply : Reply) (now : Nat) : Exchange :=
  if x.isReady then
    match x.directory.requests.receive? with
    | none => x
    | some (host, requests) =>
      { x with
        directory := { x.directory with requests }.startLookup host reply now
        queued := x.queued.tail
        started := x.started ++ x.queued.head?.toList }
  else x

def finish (x : Exchange) (lookup : Nat) (answer : Answer) (now : Nat) : Exchange :=
  match x.settling, x.started[lookup]? with
  | none, some errand =>
    { x with
      directory := { x.directory with running := x.directory.running.eraseIdx lookup }
      started := x.started.eraseIdx lookup
      settling := some (⟨errand, answer, now⟩, true) }
  | _, _ => x

def release (x : Exchange) : Exchange :=
  match x.settling with
  | some (finding, true) =>
    { x with
      directory := x.directory.release finding.errand.host
      settling := some (finding, false) }
  | _ => x

def enter (x : Exchange) : Exchange :=
  match x.settling with
  | some (finding, false) =>
    let directory := x.directory.enter finding.errand.host finding.answer finding.now
    if x.directory.keeps finding.answer finding.now then
      { x with directory, settling := none, entered := x.entered ++ [finding] }
    else
      { x with
        directory
        settling := none
        queued := []
        started := []
        abandoned := x.abandoned ++ x.queued ++ x.started }
  | _ => x

def tick (x : Exchange) (now : Nat) : Exchange :=
  if x.settling.isNone && x.directory.runs then
    { x with directory := (x.directory.sweep now).1 }
  else x

def step (x : Exchange) : Move → Exchange
  | .read host tags now => x.read host tags now
  | .reserve reader => x.reserve reader
  | .send reader => x.send reader
  | .receive reply now => x.receive reply now
  | .finish lookup answer now => x.finish lookup answer now
  | .release => x.release
  | .enter => x.enter
  | .tick now => x.tick now

def run (x : Exchange) (moves : List Move) : Exchange :=
  moves.foldl step x

-- A reader or a service that is not interrupted does what the directory does in one step.
structure Coarsens (x : Exchange) : Prop where
  apply : ∀ host tags now,
    (x.run [.read host tags now, .reserve x.undecided.length, .send x.sending.length]).directory =
      (x.directory.apply host tags now).1
  finish : ∀ lookup errand answer now, x.settling = none → x.started[lookup]? = some errand →
    (x.run [.finish lookup answer now, .release, .enter]).directory =
      (Directory.finish { x.directory with running := x.directory.running.eraseIdx lookup }
        errand.host answer now).1

theorem apply_uninterrupted (x : Exchange) (host : String) (tags : Tags) (now : Nat) :
    (x.run [.read host tags now, .reserve x.undecided.length, .send x.sending.length]).directory =
      (x.directory.apply host tags now).1 := by
  simp only [run, List.foldl_cons, List.foldl_nil, step, read, Directory.apply]
  generalize x.directory.cache.apply host tags now = looked
  obtain ⟨cache, found⟩ := looked
  cases found.isStale with
  | false => simp [reserve, send]
  | true =>
    simp only [reserve, Directory.request, if_true, List.getElem?_concat_length]
    generalize Directory.reserve { x.directory with cache } host = decided
    obtain ⟨d, reservation⟩ := decided
    cases reservation with
    | reserved =>
      simp only [send, List.getElem?_concat_length]
      split <;> rfl
    | alreadyPending => simp [send]
    | full => simp [send]

theorem finish_uninterrupted (x : Exchange) (lookup : Nat) (errand : Errand) (answer : Answer)
    (now : Nat) (idle : x.settling = none) (running : x.started[lookup]? = some errand) :
    (x.run [.finish lookup answer now, .release, .enter]).directory =
      (Directory.finish { x.directory with running := x.directory.running.eraseIdx lookup }
        errand.host answer now).1 := by
  simp only [run, List.foldl_cons, List.foldl_nil, step, finish, idle, running, release, enter,
    Directory.finish]
  split <;> rfl

theorem coarsens (x : Exchange) : x.Coarsens :=
  ⟨x.apply_uninterrupted, x.finish_uninterrupted⟩

end Exchange

end StatsDaemon.Hosts
