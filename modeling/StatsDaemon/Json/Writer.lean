import StatsDaemon.Json.Value
import StatsDaemon.Decimal.Layout

namespace StatsDaemon.Json

-- Doubles keep a fraction, and are positional from `1e-5` up to below `1e16`.
def realLayout : Decimal.Layout :=
  { positional := fun e => -5 ≤ e && e < 16, keepsFraction := true, signsExponent := true,
    tie := .toEven, nan := "null", infinity := "null" }

def hexDigit (n : Nat) : Char :=
  if n < 10 then Char.ofNat ('0'.toNat + n) else Char.ofNat ('a'.toNat + (n - 10))

def escape (c : Char) : List Char :=
  if c = '"' then ['\\', '"']
  else if c = '\\' then ['\\', '\\']
  else if c = '\x08' then ['\\', 'b']
  else if c = '\x0c' then ['\\', 'f']
  else if c = '\n' then ['\\', 'n']
  else if c = '\r' then ['\\', 'r']
  else if c = '\t' then ['\\', 't']
  else if c.toNat < 0x20 then
    ['\\', 'u', '0', '0', hexDigit (c.toNat / 16), hexDigit (c.toNat % 16)]
  else [c]

def writeString (s : String) : List Char :=
  '"' :: (s.toList.flatMap escape ++ ['"'])

def writeInt (i : Int) : List Char :=
  Decimal.signOf (i < 0) ++ Decimal.digitsOf i.natAbs

def writeReal (x : Binary64) : List Char :=
  if x.isFinite then realLayout.render x else "null".toList

mutual

def write : Json → List Char
  | .null => "null".toList
  | .bool b => (if b then "true" else "false").toList
  | .int i => writeInt i
  | .real x => writeReal x
  | .str s => writeString s
  | .arr items => '[' :: (writeItems items ++ [']'])
  | .obj fields => '\x7b' :: (writeFields fields ++ ['\x7d'])

def writeItems : List Json → List Char
  | [] => []
  | [item] => write item
  | item :: next :: rest => write item ++ ',' :: writeItems (next :: rest)

def writeFields : List (String × Json) → List Char
  | [] => []
  | [(key, value)] => writeString key ++ ':' :: write value
  | (key, value) :: next :: rest =>
    writeString key ++ ':' :: write value ++ ',' :: writeFields (next :: rest)

end

def text (j : Json) : String :=
  String.ofList j.write

end StatsDaemon.Json
