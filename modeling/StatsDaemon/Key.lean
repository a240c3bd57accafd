import StatsDaemon.Kind
import StatsDaemon.Tags

namespace StatsDaemon

namespace Hash32

-- Mixes bytes into a 32-bit hash: exclusive or with each byte, then a product with a prime.
def mix (hash : UInt32) (bytes : List UInt8) : UInt32 :=
  bytes.foldl (fun h b => (h ^^^ b.toUInt32) * 16777619) hash

def seed : UInt32 := 0x811c9dc5

def ofText (hash : UInt32) (text : String) : UInt32 :=
  mix hash text.toUTF8.toList

-- A zero byte ends every part, so that tags cannot run into each other.
def ofParts (kind : Kind) (name : String) (tags : Tags) : UInt32 :=
  let named := mix (ofText seed name) [0]
  let tagged := tags.items.foldl (fun h tag => mix (ofText h tag) [0]) named
  ofText tagged kind.code

end Hash32

structure Key where
  kind : Kind
  name : String
  tags : Tags
  hash : UInt32
  hash_eq : hash = Hash32.ofParts kind name tags
  deriving DecidableEq

namespace Key

def of (kind : Kind) (name : String) (tags : Tags) : Key :=
  ⟨kind, name, tags, Hash32.ofParts kind name tags, rfl⟩

-- Equality as decided by look-ups: first by the hash, then part by part.
def same (k l : Key) : Bool :=
  k.hash == l.hash && k.kind == l.kind && k.name == l.name && k.tags == l.tags

-- The hash is determined by the other parts, so comparing it first refuses nothing.
theorem same_iff {k l : Key} : k.same l = true ↔ k = l := by
  constructor
  · intro h
    obtain ⟨kind, name, tags, hash, heq⟩ := k
    obtain ⟨kind', name', tags', hash', heq'⟩ := l
    simp only [same, Bool.and_eq_true, beq_iff_eq] at h
    obtain ⟨⟨⟨rfl, rfl⟩, rfl⟩, rfl⟩ := h
    rfl
  · rintro rfl
    simp [same]

-- The worker that owns the identity, out of `shards`; no workers count as one.
def shard (k : Key) (shards : Nat) : Nat :=
  k.hash.toNat % max shards 1

theorem shard_lt (k : Key) (shards : Nat) : k.shard shards < max shards 1 :=
  Nat.mod_lt _ (by omega)

end Key

end StatsDaemon
