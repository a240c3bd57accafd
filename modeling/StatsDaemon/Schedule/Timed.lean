namespace StatsDaemon.Schedule

-- A system that acts at times of its own.
class Timed (ω : Type) where
  settle : Nat → ω → ω
  -- Times at which there may be something to do; those that are over do not count.
  dueTimes : ω → List Nat

variable {ω : Type} [Timed ω]

def nextAfter? (now : Nat) (times : List Nat) : Option Nat :=
  (times.filter (now < ·)).min?

theorem lt_of_nextAfter {now time : Nat} {times : List Nat} (h : nextAfter? now times = some time) :
    now < time := by
  have := List.min?_mem h
  simpa using (List.mem_filter.1 this).2

-- Lets time pass up to a limit, or until a condition holds. The system settles at every time at
-- which it acts, the first and the last one included.
def advanceUntil (done : ω → Bool) (limit now : Nat) (system : ω) : Nat × ω :=
  let system := Timed.settle now system
  if done system then (now, system)
  else match _h : nextAfter? now (Timed.dueTimes system) with
    | some time =>
      if time ≤ limit then advanceUntil done limit time system else (max now limit, system)
    | none => (max now limit, system)
  termination_by limit - now
  decreasing_by
    have := lt_of_nextAfter _h
    omega

-- Lets time pass. Who sleeps wakes before the system acts at that time.
def sleep (milliseconds now : Nat) (system : ω) : Nat × ω :=
  match milliseconds with
  | 0 => (now, system)
  | before + 1 =>
    (now + milliseconds, (advanceUntil (fun _ => false) (now + before) now system).2)

end StatsDaemon.Schedule
