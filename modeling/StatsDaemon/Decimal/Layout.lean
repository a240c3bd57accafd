import StatsDaemon.Decimal.Shortest

namespace StatsDaemon.Decimal

structure Layout where
  -- Whether a number with this exponent of scientific notation is written positionally.
  positional : Int → Bool
  -- Whether a whole number in positional notation ends in `.0`.
  keepsFraction : Bool
  -- Whether a positive exponent has a sign.
  signsExponent : Bool
  tie : Tie
  nan : String
  infinity : String

def digitsOf (n : Nat) : List Char :=
  Nat.toDigits 10 n

def zeros (n : Nat) : List Char :=
  List.replicate n '0'

def signOf (negative : Bool) : List Char :=
  if negative then ['-'] else []

-- Digits with the point after the first `point` of them, filled up by zeros on either side.
def Layout.positionalText (l : Layout) (digits : List Char) (point : Int) : List Char :=
  if point ≤ 0 then
    ['0', '.'] ++ zeros (-point).toNat ++ digits
  else if point < digits.length then
    digits.take point.toNat ++ ['.'] ++ digits.drop point.toNat
  else
    digits ++ zeros (point.toNat - digits.length) ++ if l.keepsFraction then ['.', '0'] else []

def Layout.scientificText (l : Layout) (digits : List Char) (exponent : Int) : List Char :=
  let mantissa := match digits with
    | [] => []
    | [d] => [d]
    | d :: rest => d :: '.' :: rest
  let sign := if exponent < 0 then ['-'] else if l.signsExponent then ['+'] else []
  mantissa ++ ['e'] ++ sign ++ digitsOf exponent.natAbs

def Layout.render (l : Layout) (x : Binary64) : List Char :=
  if x.isNaN then l.nan.toList
  else
    signOf x.isNegative ++
      if !x.isFinite then l.infinity.toList
      else if x.isZero then (if l.keepsFraction then ['0', '.', '0'] else ['0'])
      else
        let d := shortest l.tie x
        let digits := digitsOf d.digits
        let exponent : Int := d.exponent + digits.length - 1
        if l.positional exponent then l.positionalText digits (exponent + 1)
        else l.scientificText digits exponent

-- Plain notation of metric lines: never an exponent, and no fraction for whole numbers.
def plain : Layout :=
  { positional := fun _ => true, keepsFraction := false, signsExponent := false, tie := .up,
    nan := "NaN", infinity := "inf" }

def plainText (x : Binary64) : String :=
  String.ofList (plain.render x)

end StatsDaemon.Decimal
