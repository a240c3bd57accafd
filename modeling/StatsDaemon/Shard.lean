import StatsDaemon.Aggregate
import StatsDaemon.Config.Aggregation
import StatsDaemon.Snapshot

namespace StatsDaemon

structure ExpiryIntervals where
  counter : Nat
  gauge : Nat
  set : Nat
  timer : Nat
  deriving DecidableEq

namespace ExpiryIntervals

def ofSettings (c : Config.Aggregation) : ExpiryIntervals :=
  ⟨c.expiryInterval .counter, c.expiryInterval .gauge, c.expiryInterval .set,
    c.expiryInterval .timer⟩

def get (e : ExpiryIntervals) : Kind → Nat
  | .counter => e.counter
  | .gauge => e.gauge
  | .set => e.set
  | .timer => e.timer

-- Whether the time since `lastSeen` is longer than the interval; with zero it never is.
def isIdle (e : ExpiryIntervals) (kind : Kind) (lastSeen now : Nat) : Bool :=
  e.get kind != 0 && e.get kind < now - lastSeen

theorem get_ofSettings (c : Config.Aggregation) (kind : Kind) :
    (ofSettings c).get kind = c.expiryInterval kind := by
  cases kind <;> rfl

end ExpiryIntervals

structure Entry (α : Type) where
  key : Key
  aggregate : Aggregate α
  lastSeen : Nat
  deriving DecidableEq

namespace Entry

variable {α : Type} [Number α]

def counterReading? (e : Entry α) : Option (CounterReading α) :=
  match e.aggregate with
  | .counter value total => some ⟨e.key.series, value, total + value⟩
  | _ => none

def gaugeReading? (e : Entry α) : Option (GaugeReading α) :=
  match e.aggregate with
  | .gauge value => some ⟨e.key.series, value⟩
  | _ => none

def setReading? (e : Entry α) : Option SetReading :=
  match e.aggregate with
  | .set members => if members.isEmpty then none else some ⟨e.key.series, members.length⟩
  | _ => none

def timerReading? (e : Entry α) : Option (TimerReading α) :=
  match e.aggregate with
  | .timer samples count => if samples.isEmpty then none else some ⟨e.key.series, samples, count⟩
  | _ => none

-- The entry after its report: what was reported is gone, totals and gauges stay.
def reset (e : Entry α) : Entry α :=
  match e.aggregate with
  | .counter value total => { e with aggregate := .counter Number.zero (total + value) }
  | .gauge _ => e
  | .set _ => { e with aggregate := .set [] }
  | .timer samples _ =>
    if samples.isEmpty then e else { e with aggregate := .timer [] Number.zero }

end Entry

-- Entries stand in the order in which they came. One leaves when it has been idle for longer than
-- its expiry interval, or with every flush if the interval is zero. Instants are in milliseconds.
structure Shard (α : Type) where
  entries : List (Entry α)
  events : List Event
  maxEvents : Nat
  expiry : ExpiryIntervals
  -- Where the next step of a scan goes on.
  cursor : Nat
  deriving DecidableEq

namespace Shard

variable {α : Type}

def ofSettings (c : Config.Aggregation) : Shard α :=
  ⟨[], [], c.maxEvents, .ofSettings c, 0⟩

def isIdle (s : Shard α) (now : Nat) (e : Entry α) : Bool :=
  s.expiry.isIdle e.key.kind e.lastSeen now

variable [Number α]

-- Folds a measurement into the entry of its identity, or adds one at the end.
def mergeEntries (m : KeyedMetric α) (now : Nat) :
    List (Entry α) → Except KindMismatch (List (Entry α))
  | [] => .ok [⟨m.key, .start m.value m.sampleRate, now⟩]
  | e :: rest =>
    if e.key.same m.key then
      (e.aggregate.insert m.value m.sampleRate).map fun a =>
        { e with aggregate := a, lastSeen := now } :: rest
    else (mergeEntries m now rest).map (e :: ·)

-- Merges a measurement; one that fails changes nothing.
def merge (s : Shard α) (m : KeyedMetric α) (now : Nat) : Except KindMismatch (Shard α) :=
  (mergeEntries m now s.entries).map fun entries => { s with entries }

omit [Number α] in
def addEvent (s : Shard α) (e : Event) : Shard α × Bool :=
  if s.maxEvents ≤ s.events.length then (s, false)
  else ({ s with events := s.events ++ [e] }, true)

def snapshot (s : Shard α) (now : Nat) : Shard α × Snapshot α :=
  let live := s.entries.filter fun e => !s.isIdle now e
  let kept := live.filter fun e => s.expiry.get e.key.kind != 0
  ({ s with entries := kept.map Entry.reset, events := [], cursor := 0 },
    { counters := live.filterMap Entry.counterReading?
      gauges := live.filterMap Entry.gaugeReading?
      sets := live.filterMap Entry.setReading?
      timers := live.filterMap Entry.timerReading?
      events := s.events
      expired := s.entries.length - live.length })

-- Removes the item at a position by moving the last one there.
def swapRemove {β : Type} (items : List β) (i : Nat) : List β :=
  match items.getLast? with
  | some last => (items.set i last).dropLast
  | none => items

omit [Number α] in
-- Inspects up to so many entries from the cursor on, and counts those removed.
def scan (s : Shard α) (now : Nat) : Nat → Nat → Shard α × Nat
  | 0, removed => (s, removed)
  | fuel + 1, removed =>
    match s.entries[s.cursor]? with
    | none => (s, removed)
    | some e =>
      if s.isIdle now e then
        scan { s with entries := swapRemove s.entries s.cursor } now fuel (removed + 1)
      else scan { s with cursor := s.cursor + 1 } now fuel removed

structure ExpireStep where
  removed : Nat
  finished : Bool
  deriving DecidableEq

omit [Number α] in
-- One step of a scan. A scan that reaches the end is finished, and the next one starts anew.
def expireChunk (s : Shard α) (now chunk : Nat) : Shard α × ExpireStep :=
  let (s, removed) := s.scan now (max chunk 1) 0
  let finished : Bool := s.entries.length ≤ s.cursor
  (if finished then { s with cursor := 0 } else s, ⟨removed, finished⟩)

end Shard

end StatsDaemon
