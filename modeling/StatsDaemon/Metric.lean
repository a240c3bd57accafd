import StatsDaemon.Key
import StatsDaemon.Decimal.Layout

namespace StatsDaemon

inductive Value (α : Type) where
  | counter (x : α)
  | gauge (x : α)
  | set (member : String)
  | timer (x : α)
  deriving DecidableEq

namespace Value

variable {α : Type}

def kind : Value α → Kind
  | .counter _ => .counter
  | .gauge _ => .gauge
  | .set _ => .set
  | .timer _ => .timer

def text : Value Binary64 → String
  | .counter x | .gauge x | .timer x => Decimal.plainText x
  | .set member => member

end Value

structure Metric (α : Type) where
  name : String
  value : Value α
  sampleRate : α
  tags : Tags
  source : Option String
  deriving DecidableEq

structure KeyedMetric (α : Type) where
  key : Key
  value : Value α
  sampleRate : α

namespace Metric

variable {α : Type}

def kind (m : Metric α) : Kind :=
  m.value.kind

def key (m : Metric α) : Key :=
  .of m.kind m.name m.tags

def keyed (m : Metric α) : KeyedMetric α :=
  ⟨m.key, m.value, m.sampleRate⟩

end Metric

end StatsDaemon
