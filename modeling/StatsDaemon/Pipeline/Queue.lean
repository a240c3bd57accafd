namespace StatsDaemon.Pipeline

structure Queue (β : Type) where
  capacity : Nat
  items : List β := []
  -- Whether somebody takes items out; a closed queue refuses all items.
  isOpen : Bool := true

namespace Queue

variable {β : Type}

-- An empty queue; it has room for at least one item.
def ofCapacity (capacity : Nat) : Queue β :=
  { capacity := max capacity 1 }

def hasRoom (q : Queue β) : Bool :=
  q.isOpen && q.items.length < q.capacity

def offer? (q : Queue β) (item : β) : Option (Queue β) :=
  if q.hasRoom then some { q with items := q.items ++ [item] } else none

def drain (q : Queue β) : Queue β × List β :=
  ({ q with items := [] }, q.items)

def depth (q : Queue β) : Nat :=
  q.items.length

theorem items_offer {q r : Queue β} {item : β} (h : q.offer? item = some r) :
    r.items = q.items ++ [item] := by
  unfold offer? at h
  split at h
  · cases h; rfl
  · cases h

end Queue

end StatsDaemon.Pipeline
