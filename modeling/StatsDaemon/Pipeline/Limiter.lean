import StatsDaemon.Number

namespace StatsDaemon.Pipeline

structure Limiter (α : Type) where
  tokens : α
  capacity : α
  perSecond : α
  -- The clock reading at the last refill, in milliseconds.
  lastRefill : Nat

namespace Limiter

variable {α : Type} [Number α]

-- A full bucket; without a limit above zero nothing is logged, and there is none.
def start? (perMinute now : Nat) : Option (Limiter α) :=
  if perMinute = 0 then none
  else some
    { tokens := Number.ofNat perMinute
      capacity := Number.ofNat perMinute
      perSecond := Number.ofNat perMinute / Number.ofNat 60
      lastRefill := now }

def least (x y : α) : α :=
  if Number.totalLe x y then x else y

-- Readings of the clock may come out of order. An earlier one adds no tokens, but is the time of
-- the last refill all the same.
def refill (l : Limiter α) (now : Nat) : Limiter α :=
  { l with
    tokens := least (l.tokens + Number.seconds (now - l.lastRefill) * l.perSecond) l.capacity
    lastRefill := now }

def take (l : Limiter α) (now : Nat) : Limiter α × Bool :=
  let l := l.refill now
  if Number.totalLe Number.one l.tokens then ({ l with tokens := l.tokens - Number.one }, true)
  else (l, false)

def allow (limiter : Option (Limiter α)) (now : Nat) : Option (Limiter α) × Bool :=
  match limiter with
  | none => (none, false)
  | some l =>
    let (l, allowed) := l.take now
    (some l, allowed)

end Limiter

end StatsDaemon.Pipeline
