import StatsDaemon.Batch
import StatsDaemon.Worker

namespace StatsDaemon.Flush

inductive Answer (α : Type) where
  | awaited
  | given (report : Report α)
  -- The worker does not run any more.
  | dropped

inductive Status where
  | complete
  -- Some requests are not answered yet; they are kept.
  | late
  -- A request will never be answered.
  | closed
  deriving DecidableEq, Repr

variable {α : Type} [Number α]

-- Folds a later report in; identities are those of the later one.
def addReport (earlier : Option (Report α)) (later : Report α) : Report α :=
  match earlier with
  | none => later
  | some earlier => ⟨earlier.snapshot.merge later.snapshot, later.identities⟩

structure Collected (α ρ : Type) where
  report : Option (Report α)
  status : Status
  requests : List ρ

-- Takes the answers of one worker, in order, up to the first that is awaited. With a dropped
-- request all that follow it are given up.
def collect {ρ : Type} (answer : ρ → Answer α) : Option (Report α) → List ρ → Collected α ρ
  | report, [] => ⟨report, .complete, []⟩
  | report, request :: rest =>
    match answer request with
    | .awaited => ⟨report, .late, request :: rest⟩
    | .given later => collect answer (some (addReport report later)) rest
    | .dropped => ⟨report, .closed, []⟩

def batchOf (reports : List (Report α)) (thresholds : List α) (interval timestamp : Nat) : Batch α :=
  .ofSnapshots (reports.map Report.snapshot) thresholds interval timestamp

omit [Number α] in
def identitiesOf (reports : List (Report α)) : Nat :=
  reports.foldr (fun report n => report.identities + n) 0

end StatsDaemon.Flush
