import StatsDaemon.Config.Aggregation
import StatsDaemon.Config.Cloud
import StatsDaemon.Config.Fault
import StatsDaemon.Config.Internal
import StatsDaemon.Config.Limits
import StatsDaemon.Config.Log
import StatsDaemon.Config.Parsing
import StatsDaemon.Config.Receiver

namespace StatsDaemon

structure Config where
  receiver : Config.Receiver
  rules : Line.Rules := {}
  aggregation : Config.Aggregation
  backends : List Config.Backend := [.stdout none]
  cloud : Option Config.Cloud := none
  internal : Config.Internal := {}
  limits : Config.Limits
  log : Config.Log := {}
  deriving DecidableEq

namespace Config

open Document

def default (processors : Nat) : Config :=
  { receiver := .default processors
    aggregation := { workers := processors }
    limits := .default processors }

def fieldNames : List String :=
  ["receiver", "parser", "aggregator", "backends", "cloud", "internal", "limits", "logging"]

def ofDocument? {δ : Type} [Document δ] (processors : Nat) (d : δ) : Option Config := do
  let [receiver, rules, aggregation, backends, cloud, internal, limits, log] ←
    record? fieldNames d | none
  let default := default processors
  some
    { receiver := ← orElse default.receiver (Receiver.ofDocument? processors) receiver
      rules := ← orElse default.rules Line.Rules.ofDocument? rules
      aggregation := ← orElse default.aggregation (Aggregation.ofDocument? processors) aggregation
      backends := ← orElse default.backends (list? Backend.ofDocument?) backends
      cloud := ← optional Cloud.ofDocument? cloud
      internal := ← orElse default.internal Internal.ofDocument? internal
      limits := ← orElse default.limits (Limits.ofDocument? processors) limits
      log := ← orElse default.log Log.ofDocument? log }

-- The tree of all settings; only host tags are left out if there are none.
def toJson (c : Config) : Json :=
  .obj <|
    [("receiver", c.receiver.toJson), ("parser", c.rules.toJson),
      ("aggregator", c.aggregation.toJson), ("backends", .arr (c.backends.map Backend.toJson))]
      ++ (c.cloud.elim [] fun cloud => [("cloud", cloud.toJson)])
      ++ [("internal", c.internal.toJson), ("limits", c.limits.toJson), ("logging", c.log.toJson)]

structure Overrides where
  mode : Option String := none
  bind : Option String := none
  flushInterval : Option String := none
  logLevel : Option String := none
  logFormat : Option String := none
  shutdownTimeout : Option String := none
  deriving DecidableEq

namespace Overrides

def mode? (text : String) : Except ValueFault Mode :=
  match Mode.ofName? text with
  | some mode => .ok mode
  | none => .error .mode

def address? (text : String) : Except ValueFault Net.SocketAddress :=
  match Net.SocketAddress.parse? text with
  | some address => .ok address
  | none => .error .address

def natural? (text : String) : Except ValueFault Nat :=
  (Text.readWord64 text.toList).mapError .integer

def level? (text : String) : Except ValueFault Logging.Level :=
  (Logging.Level.read text).mapError .logName

def format? (text : String) : Except ValueFault Logging.Format :=
  (Logging.Format.read text).mapError .logName

def change {β : Type} (field : String) (text : Option String) (read : String → Except ValueFault β)
    (set : Config → β → Config) (c : Config) : Except Fault Config :=
  match text with
  | none => .ok c
  | some text =>
    match read text with
    | .ok value => .ok (set c value)
    | .error cause => .error (.invalidField field (some cause))

-- All overrides, in the order in which they are applied.
def changes (o : Overrides) : List (Config → Except Fault Config) :=
  [change "mode" o.mode mode? fun c mode =>
      { c with receiver := { c.receiver with mode } },
    change "bind" o.bind address? fun c bind =>
      { c with receiver := { c.receiver with bind } },
    change "flush_interval" o.flushInterval natural? fun c flushInterval =>
      { c with aggregation := { c.aggregation with flushInterval } },
    change "log_level" o.logLevel level? fun c level =>
      { c with log := { c.log with level } },
    change "log_format" o.logFormat format? fun c format =>
      { c with log := { c.log with format } },
    change "shutdown_timeout" o.shutdownTimeout natural? fun c shutdownTimeout =>
      { c with limits := { c.limits with shutdownTimeout } }]

end Overrides

-- Applies changes up to the first that fails; those before it stay.
def applyAll (c : Config) : List (Config → Except Fault Config) → Config × Option Fault
  | [] => (c, none)
  | change :: rest =>
    match change c with
    | .ok c => applyAll c rest
    | .error fault => (c, some fault)

def override (c : Config) (o : Overrides) : Config × Option Fault :=
  c.applyAll o.changes

def validate (c : Config) : Except Fault Unit := do
  match c.aggregation.validate with
  | .ok () => .ok ()
  | .error fault => .error (.invalidField "aggregator" (some (.aggregation fault)))
  if c.receiver.maxReaders = 0 then .error (.invalidField "max_readers" none)
  if c.receiver.maxParsers = 0 then .error (.invalidField "max_parsers" none)
  if c.receiver.batchSize = 0 then .error (.invalidField "receive_batch_size" none)
  if !(0 < c.internal.sampleRate && c.internal.sampleRate ≤ 1) then
    .error (.invalidField "sample_rate" none)

theorem validate_eq_ok_iff (c : Config) : c.validate = .ok () ↔
    c.aggregation.validate = .ok () ∧ c.receiver.maxReaders ≠ 0 ∧ c.receiver.maxParsers ≠ 0 ∧
      c.receiver.batchSize ≠ 0 ∧ 0 < c.internal.sampleRate ∧ c.internal.sampleRate ≤ 1 := by
  unfold validate
  cases c.aggregation.validate with
  | error fault => exact ⟨fun h => (nomatch h), fun h => (nomatch h.1)⟩
  | ok =>
    by_cases hreaders : c.receiver.maxReaders = 0
    · simp only [if_pos hreaders]
      exact ⟨fun h => (nomatch h), fun h => absurd hreaders h.2.1⟩
    by_cases hparsers : c.receiver.maxParsers = 0
    · simp only [if_neg hreaders, if_pos hparsers]
      exact ⟨fun h => (nomatch h), fun h => absurd hparsers h.2.2.1⟩
    by_cases hbatch : c.receiver.batchSize = 0
    · simp only [if_neg hreaders, if_neg hparsers, if_pos hbatch]
      exact ⟨fun h => (nomatch h), fun h => absurd hbatch h.2.2.2.1⟩
    by_cases hrate : 0 < c.internal.sampleRate ∧ c.internal.sampleRate ≤ 1
    · simp only [if_neg hreaders, if_neg hparsers, if_neg hbatch, hrate.1, hrate.2, decide_true,
        Bool.and_self, Bool.not_true, Bool.false_eq_true, if_false]
      exact ⟨fun _ => ⟨trivial, hreaders, hparsers, hbatch, trivial, trivial⟩, fun _ => rfl⟩
    · have hcheck : (!(decide (0 < c.internal.sampleRate) &&
          decide (c.internal.sampleRate ≤ 1))) = true := by
        rw [← Bool.decide_and, decide_eq_false hrate]
        rfl
      simp only [if_neg hreaders, if_neg hparsers, if_neg hbatch, if_pos hcheck]
      exact ⟨fun h => (nomatch h), fun h => absurd h.2.2.2.2 hrate⟩

end Config

end StatsDaemon
