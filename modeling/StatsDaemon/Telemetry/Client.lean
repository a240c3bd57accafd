import StatsDaemon.Decimal.Layout

namespace StatsDaemon.Telemetry

inductive Quantity where
  | whole (i : Int)
  | real (x : Binary64)
  deriving DecidableEq

inductive MeasurementKind where
  | counter
  | gauge
  | set
  | distribution
  deriving DecidableEq

structure Measurement where
  kind : MeasurementKind
  name : String
  quantity : Quantity
  tags : List (String × String) := []
  deriving DecidableEq

-- Tags of the client follow those of the measurement.
structure Client where
  -- Written before every name, with one dot for all the dots at its end.
  scope : String := ""
  defaultTags : List (String × String) := []
  sampleRate : Binary64 := 1

namespace MeasurementKind

def code : MeasurementKind → String
  | .counter => "c"
  | .gauge => "g"
  | .set => "s"
  | .distribution => "d"

end MeasurementKind

def Quantity.text : Quantity → List Char
  | .whole i => Decimal.signOf (i < 0) ++ Decimal.digitsOf i.natAbs
  | .real x => Decimal.plain.render x

-- A duration in nanoseconds, measured in milliseconds.
def timer (name : String) (nanoseconds : Nat) (tags : List (String × String)) : Measurement :=
  { kind := .distribution, name, quantity := .real (.ofNat nanoseconds / .ofNat 1000000), tags }

def clampRate (rate : Binary64) : Binary64 :=
  if rate < 0 then 0 else if 1 < rate then 1 else rate

def tagsText (tags : List (String × String)) : String :=
  if tags.isEmpty then ""
  else "|#" ++ ",".intercalate (tags.map fun (key, value) => key ++ ":" ++ value)

def Client.scopeText (c : Client) : String :=
  if c.scope.isEmpty then ""
  else String.ofList ((c.scope.toList.reverse.dropWhile (· = '.')).reverse ++ ['.'])

-- A client that does not send everything says how much it sends.
def Client.rateText (c : Client) : String :=
  if c.sampleRate < 1 then "|@" ++ String.ofList (Decimal.plain.render c.sampleRate) else ""

def Client.line (c : Client) (m : Measurement) : String :=
  c.scopeText ++ m.name ++ ":" ++ String.ofList m.quantity.text ++ "|" ++ m.kind.code
    ++ c.rateText ++ tagsText (m.tags ++ c.defaultTags)

-- Whether there is something to send: all but counters that did not move.
def Measurement.isSent (m : Measurement) : Bool :=
  !(m.kind = .counter && m.quantity = .whole 0)

def Client.passes (c : Client) (draw : Binary64) : Bool :=
  1 ≤ c.sampleRate || (0 < c.sampleRate && draw ≤ c.sampleRate)

def Client.lines (c : Client) (measurements : List Measurement) : List String :=
  if 0 < c.sampleRate then (measurements.filter Measurement.isSent).map c.line else []

end StatsDaemon.Telemetry
