import StatsDaemon.Batch
import StatsDaemon.Config.Aggregation
import StatsDaemon.Graphite.Sanitize

namespace StatsDaemon.Graphite

inductive TagStyle where
  | graphite
  | none
  deriving DecidableEq, Repr

namespace TagStyle

def name : TagStyle → String
  | .graphite => "graphite"
  | .none => "none"

def ofName? (name : String) : Option TagStyle :=
  if name = "graphite" then some .graphite
  else if name = "none" then some .none
  else Option.none

theorem ofName_name (s : TagStyle) : ofName? s.name = some s := by
  cases s <;> rfl

end TagStyle

structure Prefixes where
  global : String := "stats"
  counter : String := "counters"
  gauge : String := "gauges"
  set : String := "sets"
  timer : String := "timers"
  deriving DecidableEq

structure Format where
  prefixes : Prefixes := {}
  tagStyle : TagStyle := .graphite
  disabled : DisabledFigures := {}
  deriving DecidableEq

structure Figure where
  kind : Kind
  series : Series
  -- Which figure of the series it is; empty where there is only one.
  suffix : String
  value : Binary64
  deriving DecidableEq

-- A figure with the switch that leaves it out.
abbrev Switched := String × Bool × Binary64

def timerFigures (disabled : DisabledFigures) (s : Summary Binary64) : List Switched :=
  [("lower", disabled.lower, s.least),
    ("upper", disabled.upper, s.greatest),
    ("count", disabled.count, .ofNat s.count),
    ("count_ps", disabled.countPerSecond, s.perSecond),
    ("mean", disabled.mean, s.mean),
    ("median", disabled.median, s.median),
    ("std", disabled.std, s.deviation),
    ("sum", disabled.sum, s.sum),
    ("sum_squares", disabled.sumSquares, s.sumSquares)]

-- The figures of one cut. Their names carry the threshold, and the direction if it is lower.
def percentileFigures (disabled : DisabledFigures) (p : Percentile Binary64) : List Switched :=
  let lower : Bool := p.threshold < 0
  let suffix := (if lower then "lower_" else "") ++ Percentile.suffixOf p.threshold
  [(Percentile.labelOf p.threshold, if lower then disabled.lowerPct else disabled.upperPct,
      p.bound),
    ("count_" ++ suffix, disabled.countPct, .ofNat p.count),
    ("mean_" ++ suffix, disabled.meanPct, p.mean),
    ("sum_" ++ suffix, disabled.sumPct, p.sum),
    ("sum_squares_" ++ suffix, disabled.sumSquaresPct, p.sumSquares)]

def FlushedTimer.figures (disabled : DisabledFigures) (t : FlushedTimer Binary64) : List Figure :=
  let all := timerFigures disabled t.summary
    ++ t.summary.percentiles.flatMap (percentileFigures disabled)
  (all.filter fun (_, skip, _) => !skip).map fun (suffix, _, value) =>
    ⟨.timer, t.series, suffix, value⟩

def figures (disabled : DisabledFigures) (b : Batch Binary64) : List Figure :=
  (b.counters.flatMap fun c =>
      [⟨.counter, c.series, "count", c.delta⟩, ⟨.counter, c.series, "rate", c.perSecond⟩])
    ++ (b.gauges.map fun g => ⟨.gauge, g.series, "", g.value⟩)
    ++ (b.sets.map fun s => ⟨.set, s.series, "count", .ofNat s.cardinality⟩)
    ++ b.timers.flatMap (FlushedTimer.figures disabled)

def Prefixes.ofKind (p : Prefixes) : Kind → String
  | .counter => p.counter
  | .gauge => p.gauge
  | .set => p.set
  | .timer => p.timer

def Format.basePath (f : Format) (kind : Kind) (name : String) : String :=
  ".".intercalate
    ([f.prefixes.global, f.prefixes.ofKind kind, sanitizePath name].filter fun part =>
      !part.isEmpty)

-- A tag as a key with its value; a bare tag is true.
def tagText (tag : String) : String :=
  let (key, value) := match Text.cut ':' tag.toList with
    | some (key, value) => (String.ofList key, String.ofList value)
    | Option.none => (tag, "true")
  ";" ++ sanitizeTag key ++ "=" ++ sanitizeTag value

def Format.path (f : Format) (figure : Figure) : String :=
  let base := f.basePath figure.kind figure.series.name
  let path := if figure.suffix.isEmpty then base else base ++ "." ++ figure.suffix
  match f.tagStyle with
  | .graphite => path ++ String.join (figure.series.tags.items.map tagText)
  | .none => path

def Format.line (f : Format) (timestamp : Nat) (figure : Figure) : String :=
  f.path figure ++ " " ++ Decimal.plainText figure.value ++ " "
    ++ String.ofList (Decimal.digitsOf timestamp) ++ "\n"

def Format.render (f : Format) (b : Batch Binary64) : String :=
  String.join ((figures f.disabled b).map (f.line b.timestamp))

end StatsDaemon.Graphite
