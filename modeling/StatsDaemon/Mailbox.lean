namespace StatsDaemon

structure Mailbox (μ : Type) where
  waiting : List μ := []
  -- The backlog as the senders see it.
  backlog : UInt64 := 0
  isOpen : Bool := true

namespace Mailbox

variable {μ : Type}

-- The first step of sending: the message is counted.
def announce (m : Mailbox μ) : Mailbox μ :=
  { m with backlog := m.backlog + 1 }

-- The second step of sending: the message is delivered, if the service still runs.
def deliver (m : Mailbox μ) (message : μ) : Mailbox μ :=
  if m.isOpen then { m with waiting := m.waiting ++ [message] } else m

def send (m : Mailbox μ) (message : μ) : Mailbox μ :=
  m.announce.deliver message

def receive? (m : Mailbox μ) : Option (μ × Mailbox μ) :=
  match m.waiting with
  | [] => none
  | message :: waiting => some (message, { m with waiting, backlog := m.backlog - 1 })

@[simp] theorem isOpen_send (m : Mailbox μ) (message : μ) :
    (m.send message).isOpen = m.isOpen := by
  unfold send announce deliver
  split <;> rfl

theorem isOpen_of_receive {m rest : Mailbox μ} {message : μ}
    (h : m.receive? = some (message, rest)) : rest.isOpen = m.isOpen := by
  unfold receive? at h
  split at h <;> cases h
  rfl

-- The service stops; what waited is lost.
def close (m : Mailbox μ) : Mailbox μ :=
  { m with waiting := [], isOpen := false }

end Mailbox

end StatsDaemon
