import StatsDaemon.Tags

namespace StatsDaemon.Hosts

-- A host without tags is remembered as well, so that it is not looked up for every line.
structure CachedHost where
  host : String
  -- The tags that were found; none if the lookup found nothing or failed.
  tags : Option Tags
  -- From then on the host is looked up again.
  expires : Nat
  -- When the host was last asked for, as a 64-bit count of whole milliseconds since the epoch.
  lastUsed : Nat
  deriving DecidableEq

structure Cache where
  entries : List CachedHost := []
  epoch : Nat := 0
  -- Units of the clock in a millisecond.
  resolution : Nat := 1
  deriving DecidableEq

inductive CacheStatus where
  | hit
  | negative
  | miss
  deriving DecidableEq, Repr

namespace CacheStatus

def name : CacheStatus → String
  | .hit => "Hit"
  | .negative => "Negative"
  | .miss => "Miss"

end CacheStatus

namespace Cache

def word (milliseconds : Nat) : Nat :=
  milliseconds % 0x10000000000000000

def sinceEpoch (c : Cache) (now : Nat) : Nat :=
  word ((now - c.epoch) / c.resolution)

def find? (c : Cache) (host : String) : Option CachedHost :=
  c.entries.find? fun e => e.host == host

def change (c : Cache) (host : String) (f : CachedHost → CachedHost) : Cache :=
  { c with entries := c.entries.map fun e => if e.host == host then f e else e }

structure Found where
  status : CacheStatus
  tags : Tags
  isStale : Bool

-- Extends tags by those of the host. Reading a host counts as a use of it.
def apply (c : Cache) (host : String) (tags : Tags) (now : Nat) : Cache × Found :=
  match c.find? host with
  | none => (c, ⟨.miss, tags, true⟩)
  | some e =>
    let c := c.change host fun e => { e with lastUsed := c.sinceEpoch now }
    match e.tags with
    | some known => (c, ⟨.hit, tags.extend known.items, e.expires ≤ now⟩)
    | none => (c, ⟨.negative, tags, e.expires ≤ now⟩)

-- Enters the result of a lookup. Renewing a host is no use of it.
def insert (c : Cache) (host : String) (tags : Option Tags) (expires now : Nat) : Cache :=
  match c.find? host with
  | some _ => c.change host fun e => { e with tags, expires }
  | none =>
    { c with entries := c.entries ++ [{ host, tags, expires, lastUsed := c.sinceEpoch now }] }

-- Forgets the hosts that were not used for longer than `maxIdle` milliseconds, and counts them.
def evict (c : Cache) (maxIdle now : Nat) : Cache × Nat :=
  let threshold := c.sinceEpoch now - word maxIdle
  let kept := c.entries.filter fun e => threshold ≤ e.lastUsed
  ({ c with entries := kept }, c.entries.length - kept.length)

end Cache

end StatsDaemon.Hosts
