import StatsDaemon.Binary64

namespace StatsDaemon.Decimal

def natOfDigits (digits : List Char) : Nat :=
  digits.foldl (fun n c => 10 * n + (c.toNat - '0'.toNat)) 0

def splitSign : List Char → Bool × List Char
  | '+' :: rest => (false, rest)
  | '-' :: rest => (true, rest)
  | text => (false, text)

-- Beyond these bounds every value overflows or vanishes, so the power of ten stays small.
def nearest (mantissa : Nat) (exponent : Int) : Binary64 :=
  let length : Int := exponent + (Nat.toDigits 10 mantissa).length
  if mantissa = 0 ∨ length < -330 then 0
  else if 310 < length then .infinity
  else .ofFloat (Float.ofScientific mantissa (exponent < 0) exponent.natAbs)

-- The exponent after the mantissa; no text is the exponent zero.
def readExponent : List Char → Option Int
  | [] => some 0
  | c :: rest =>
    if c = 'e' ∨ c = 'E' then
      let (negative, digits) := splitSign rest
      if digits.isEmpty ∨ !digits.all Char.isDigit then none
      else some (if negative then -(natOfDigits digits : Int) else natOfDigits digits)
    else none

def readMagnitude (text : List Char) : Option Binary64 :=
  let whole := text.takeWhile Char.isDigit
  let rest := text.dropWhile Char.isDigit
  let (fraction, rest) := match rest with
    | '.' :: rest => (rest.takeWhile Char.isDigit, rest.dropWhile Char.isDigit)
    | _ => ([], rest)
  if whole.isEmpty && fraction.isEmpty then none
  else
    (readExponent rest).map fun exponent =>
      nearest (natOfDigits (whole ++ fraction)) (exponent - fraction.length)

def readWord (text : List Char) : Option Binary64 :=
  let word := String.ofList (text.map Char.toLower)
  if word = "inf" ∨ word = "infinity" then some .infinity
  else if word = "nan" then some .nan
  else none

def read? (text : List Char) : Option Binary64 :=
  let (negative, rest) := splitSign text
  ((readMagnitude rest).or (readWord rest)).map (·.withSign negative)

end StatsDaemon.Decimal
