import StatsDaemon.Binary64

namespace StatsDaemon.Decimal

structure Digits where
  digits : Nat
  exponent : Int
  deriving DecidableEq, Repr

-- Which of two equally near decimals is taken.
inductive Tie where
  | up
  | toEven
  deriving DecidableEq, Repr

-- The interval of reals that round to one number, over the common denominator `scale`: the number
-- is `middle / scale` and the ends are `low / scale` and `high / scale`.
structure Interval where
  low : Nat
  middle : Nat
  high : Nat
  scale : Nat
  closed : Bool
  deriving Repr

-- Units of a quarter of the last place make all three points whole. The gap below a power of two
-- is half the gap above it, except where the exponent is already the least.
def Interval.around (x : Binary64) : Interval :=
  let m := x.significand
  let shift := x.unit - 2
  let up := Nat.pow 2 shift.toNat
  let narrow := x.fraction = 0 ∧ 1 < x.biasedExponent
  { low := (4 * m - if narrow then 1 else 2) * up
    middle := 4 * m * up
    high := (4 * m + 2) * up
    scale := Nat.pow 2 (-shift).toNat
    closed := m % 2 = 0 }

def Interval.holds (i : Interval) (factor value : Nat) : Bool :=
  if i.closed then i.low * factor ≤ value && value ≤ i.high * factor
  else i.low * factor < value && value < i.high * factor

-- Only the two neighbours of the number need a test: if any point of the grid lies in the interval,
-- one of them does.
def Interval.onGrid (i : Interval) (tie : Tie) (exponent : Int) : Option Nat :=
  let factor := Nat.pow 10 (-exponent).toNat
  let grid := i.scale * Nat.pow 10 exponent.toNat
  let below := i.middle * factor / grid
  let above := below + 1
  match i.holds factor (below * grid), i.holds factor (above * grid) with
  | false, false => none
  | true, false => some below
  | false, true => some above
  | true, true =>
    let twice := 2 * (i.middle * factor)
    let sum := (below + above) * grid
    if twice < sum then some below
    else if sum < twice then some above
    else match tie with
      | .up => some above
      | .toEven => if below % 2 = 0 then some below else some above

def Interval.belowPower (i : Interval) (k : Int) : Bool :=
  i.middle * Nat.pow 10 (-k).toNat < i.scale * Nat.pow 10 k.toNat

def Interval.leastPower (i : Interval) : Nat → Int → Int
  | 0, k => k
  | fuel + 1, k => if i.belowPower k then k else i.leastPower fuel (k + 1)

-- The binary length gives the decimal length up to one, and starting one lower is safe.
def Interval.decimalLength (i : Interval) : Int :=
  let bits : Int := (i.middle.log2 : Int) - i.scale.log2
  i.leastPower 4 (bits * 30103 / 100000 - 1)

def stripZeros : Nat → Digits → Digits
  | 0, d => d
  | fuel + 1, d =>
    if d.digits ≠ 0 ∧ d.digits % 10 = 0 then stripZeros fuel ⟨d.digits / 10, d.exponent + 1⟩ else d

def Interval.search (i : Interval) (tie : Tie) (length : Int) : Nat → Nat → Option Digits
  | 0, _ => none
  | fuel + 1, n =>
    match i.onGrid tie (length - n) with
    | some d => some (stripZeros 20 ⟨d, length - n⟩)
    | none => i.search tie length fuel (n + 1)

-- The exact value, for a number that no grid of seventeen digits would find.
def exact (x : Binary64) : Digits :=
  match x.unit with
  | .ofNat n => ⟨x.significand * Nat.pow 2 n, 0⟩
  | .negSucc n => ⟨x.significand * Nat.pow 5 (n + 1), -(n + 1 : Int)⟩

def shortest (tie : Tie) (x : Binary64) : Digits :=
  let i := Interval.around x
  (i.search tie i.decimalLength 17 1).getD (exact x)

end StatsDaemon.Decimal
