namespace StatsDaemon

structure Ticker where
  next : Nat
  period : Nat
  deriving DecidableEq

-- The last instant that the clock can tell. It counts seconds in 63 bits.
def lastInstant : Nat :=
  0x8000000000000000 * 1000 - 1

namespace Ticker

def after (now period : Nat) : Ticker :=
  ⟨now + period, period⟩

def isDue (t : Ticker) (now : Nat) : Bool :=
  t.next ≤ now

-- A tick that is so little late counts as punctual.
def tolerance : Nat := 5

-- Handles a tick; all missed ones follow.
def advance (t : Ticker) : Ticker :=
  { t with next := t.next + t.period }

def farFuture : Nat :=
  30 * 365 * 86400 * 1000

-- Handles a tick. Where the next one is beyond the clock, it is put off if this one is punctual, and
-- there is none if it is late.
def advance? (t : Ticker) (now : Nat) : Option Ticker :=
  if t.next + t.period ≤ lastInstant then some t.advance
  else if now ≤ t.next + tolerance then some { t with next := now + farFuture }
  else none

-- Handles a tick; missed ones are skipped, and the next one keeps the rhythm.
def skip (t : Ticker) (now : Nat) : Ticker :=
  if t.next + tolerance < now then { t with next := now + t.period - (now - t.next) % t.period }
  else t.advance

end Ticker

end StatsDaemon
