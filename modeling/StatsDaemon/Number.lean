import StatsDaemon.Binary64

namespace StatsDaemon

-- Aggregation is written for any such numbers: it runs on doubles, and its bookkeeping can be
-- looked at in exact arithmetic.
class Number (α : Type) extends Add α, Sub α, Mul α, Div α where
  ofNat : Nat → α
  -- Where a sum starts; adding it to a number gives the number.
  emptySum : α
  sqrt : α → α
  abs : α → α
  isPositive : α → Bool
  isNegative : α → Bool
  isNonnegative : α → Bool
  -- A total order on all numbers, by which samples are sorted.
  totalLe : α → α → Bool
  -- The nearest count, a half going up.
  roundToCount : α → Nat

namespace Number

variable {α : Type} [Number α]

def zero : α := ofNat 0
def one : α := ofNat 1

def sum (xs : List α) : α :=
  xs.foldl (· + ·) emptySum

-- Milliseconds in seconds: whole seconds plus the fraction in nanoseconds.
def seconds (milliseconds : Nat) : α :=
  ofNat (milliseconds / 1000) + ofNat (milliseconds % 1000 * 1000000) / ofNat 1000000000

-- A quantity per second of an interval; there is no rate in an empty interval.
def perSecond (x : α) (milliseconds : Nat) : α :=
  let interval : α := seconds milliseconds
  if isPositive interval then x / interval else zero

end Number

-- Minus zero is the neutral element: adding it to either zero keeps the sign.
instance : Number Binary64 where
  ofNat := .ofNat
  emptySum := .negZero
  sqrt := .sqrt
  abs := .abs
  isPositive x := 0 < x
  isNegative x := x < 0
  isNonnegative x := 0 ≤ x
  totalLe := Binary64.totalLe
  roundToCount := Binary64.roundToCount

end StatsDaemon
