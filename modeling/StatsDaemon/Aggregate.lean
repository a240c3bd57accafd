import StatsDaemon.Metric
import StatsDaemon.Number

namespace StatsDaemon

structure KindMismatch where
  aggregate : Kind
  value : Kind
  deriving DecidableEq

def KindMismatch.message (e : KindMismatch) : String :=
  "cannot merge " ++ e.value.code ++ " value into " ++ e.aggregate.code ++ " aggregate"

inductive Aggregate (α : Type) where
  -- The increments since the last flush and the sum of all flushed ones.
  | counter (value total : α)
  | gauge (value : α)
  | set (members : List String)
  -- Samples, and the number of measurements that they stand for.
  | timer (samples : List α) (sampledCount : α)
  deriving DecidableEq

namespace Aggregate

variable {α : Type}

def kind : Aggregate α → Kind
  | .counter .. => .counter
  | .gauge _ => .gauge
  | .set _ => .set
  | .timer .. => .timer

variable [Number α]

def start (value : Value α) (rate : α) : Aggregate α :=
  match value with
  | .counter x => .counter (x / rate) Number.zero
  | .gauge x => .gauge x
  | .set member => .set [member]
  | .timer x => .timer [x] (Number.one / rate)

def insert (a : Aggregate α) (value : Value α) (rate : α) : Except KindMismatch (Aggregate α) :=
  match a, value with
  | .counter sum total, .counter x => .ok (.counter (sum + x / rate) total)
  | .gauge _, .gauge x => .ok (.gauge x)
  | .set members, .set member => .ok (.set (members.insert member))
  | .timer samples count, .timer x => .ok (.timer (samples ++ [x]) (count + Number.one / rate))
  | a, value => .error ⟨a.kind, value.kind⟩

theorem kind_start (value : Value α) (rate : α) : (start value rate).kind = value.kind := by
  cases value <;> rfl

theorem kind_insert {a b : Aggregate α} {value : Value α} {rate : α}
    (h : a.insert value rate = .ok b) : b.kind = a.kind := by
  cases a <;> cases value <;> simp only [insert, Except.ok.injEq, reduceCtorEq] at h <;>
    subst h <;> rfl

theorem kind_of_insert {a b : Aggregate α} {value : Value α} {rate : α}
    (h : a.insert value rate = .ok b) : a.kind = value.kind := by
  cases a <;> cases value <;> first | rfl | cases h

end Aggregate

end StatsDaemon
