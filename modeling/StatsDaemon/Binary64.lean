namespace StatsDaemon

-- The bits are kept because samples are sorted in the total order, where the two zeros differ
-- and a negative NaN comes before every number.
structure Binary64 where
  bits : UInt64
  deriving DecidableEq, Inhabited

namespace Binary64

def ofFloat (x : Float) : Binary64 :=
  ⟨x.toBits⟩

def toFloat (x : Binary64) : Float :=
  Float.ofBits x.bits

def ofNat (n : Nat) : Binary64 :=
  ofFloat (Float.ofNat n)

instance (n : Nat) : OfNat Binary64 n := ⟨ofNat n⟩

instance : Add Binary64 := ⟨fun x y => ofFloat (x.toFloat + y.toFloat)⟩
instance : Sub Binary64 := ⟨fun x y => ofFloat (x.toFloat - y.toFloat)⟩
instance : Mul Binary64 := ⟨fun x y => ofFloat (x.toFloat * y.toFloat)⟩
instance : Div Binary64 := ⟨fun x y => ofFloat (x.toFloat / y.toFloat)⟩

def sqrt (x : Binary64) : Binary64 :=
  ofFloat x.toFloat.sqrt

-- Comparisons are those of numbers: a NaN is not below, above or equal to anything, and the two
-- zeros are equal.
instance : LT Binary64 := ⟨fun x y => x.toFloat < y.toFloat⟩
instance : LE Binary64 := ⟨fun x y => x.toFloat ≤ y.toFloat⟩

instance (x y : Binary64) : Decidable (x < y) :=
  inferInstanceAs (Decidable (x.toFloat < y.toFloat))

instance (x y : Binary64) : Decidable (x ≤ y) :=
  inferInstanceAs (Decidable (x.toFloat ≤ y.toFloat))

def signBit : UInt64 := 0x8000000000000000

def isNegative (x : Binary64) : Bool :=
  x.bits &&& signBit != 0

def biasedExponent (x : Binary64) : Nat :=
  ((x.bits >>> 52) &&& 0x7ff).toNat

def fraction (x : Binary64) : Nat :=
  (x.bits &&& 0xfffffffffffff).toNat

def isFinite (x : Binary64) : Bool :=
  x.biasedExponent != 0x7ff

def isNaN (x : Binary64) : Bool :=
  x.biasedExponent == 0x7ff && x.fraction != 0

theorem isNaN_of_isFinite {x : Binary64} (hx : x.isFinite = true) : x.isNaN = false := by
  simp only [isFinite, bne_iff_ne] at hx
  simp [isNaN, hx]

def isZero (x : Binary64) : Bool :=
  x.biasedExponent == 0 && x.fraction == 0

def withSign (negative : Bool) (x : Binary64) : Binary64 :=
  if negative then ⟨x.bits ||| signBit⟩ else ⟨x.bits &&& ~~~signBit⟩

def abs (x : Binary64) : Binary64 :=
  x.withSign false

def negZero : Binary64 := ⟨signBit⟩
def infinity : Binary64 := ⟨0x7ff0000000000000⟩
def nan : Binary64 := ⟨0x7ff8000000000000⟩

-- A finite number is `significand * 2 ^ unit` up to its sign.
def significand (x : Binary64) : Nat :=
  if x.biasedExponent = 0 then x.fraction else x.fraction + 0x10000000000000

def unit (x : Binary64) : Int :=
  (max x.biasedExponent 1 : Nat) - 1075

-- Position in the total order: negative NaN, the numbers from below with `-0` before `0`, NaN.
def rank (x : Binary64) : Nat :=
  if x.isNegative then 0xffffffffffffffff - x.bits.toNat else 0x8000000000000000 + x.bits.toNat

def totalLe (x y : Binary64) : Bool :=
  x.rank ≤ y.rank

-- Nearest natural number to the magnitude of a finite number, a half going up.
def roundMagnitude (x : Binary64) : Nat :=
  match x.unit with
  | .ofNat n => x.significand * Nat.pow 2 n
  | .negSucc n => (x.significand + Nat.pow 2 n) / Nat.pow 2 (n + 1)

def maxCount : Nat := 0xffffffffffffffff

-- Nearest count, a half going away from zero. Below zero and NaN give zero, and what is beyond the
-- counts gives the largest one.
def roundToCount (x : Binary64) : Nat :=
  if x.isNaN then 0
  else if x.isNegative then 0
  else if x.isFinite then min x.roundMagnitude maxCount
  else maxCount

end Binary64

end StatsDaemon
