import StatsDaemon.Journal
import StatsDaemon.Telemetry.Catalog

namespace StatsDaemon.Flush

inductive Delivery where
  -- It is done after so many milliseconds.
  | done (delay : Nat)
  | failed (message : String)
  -- It does not end, as far as is known.
  | stuck
  deriving DecidableEq

inductive Result where
  | success
  | failed (message : String)
  | timeout
  deriving DecidableEq

structure Submission where
  number : Nat
  backend : String
  delivery : Delivery
  start : Nat
  -- When its time is over.
  deadline : Nat

namespace Submission

def report (s : Submission) (failure : Option String) (now : Nat) : Submission :=
  { s with
    delivery := match failure with
      | none => .done (now - s.start)
      | some message => .failed message }

def doneAt (s : Submission) : Option Nat :=
  match s.delivery with
  | .done delay => some (s.start + delay)
  | .failed _ => some s.start
  | .stuck => none

def due (s : Submission) : Nat :=
  match s.doneAt with
  | some time => min time s.deadline
  | none => s.deadline

-- How it ended, as seen at some time; a backend that is done by then is in time.
def result (s : Submission) (now : Nat) : Result :=
  match s.doneAt with
  | some time =>
    if time ≤ now then
      match s.delivery with
      | .failed message => .failed message
      | _ => .success
    else .timeout
  | none => .timeout

end Submission

def Result.label : Result → String
  | .success => "success"
  | .failed _ => "error"
  | .timeout => "timeout"

def Result.journal (backend : String) (r : Result) : Journal :=
  { log := match r with
      | .success => []
      | .failed message => [⟨.error, "failed to send metrics to backend", some message⟩]
      | .timeout => [⟨.error, "timed out sending metrics to backend", none⟩]
    measurements := [Telemetry.backendSend backend r.label] }

end StatsDaemon.Flush
