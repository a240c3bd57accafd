import StatsDaemon.Binary64

namespace StatsDaemon

inductive Json where
  | null
  | bool (b : Bool)
  | int (i : Int)
  | real (x : Binary64)
  | str (s : String)
  | arr (items : List Json)
  | obj (fields : List (String × Json))
  deriving Inhabited

namespace Json

def maxNatural : Int := 0xffffffffffffffff
def minInteger : Int := -0x8000000000000000

-- A whole number, unless it is out of range; then the nearest double.
def ofInt (i : Int) : Json :=
  if minInteger ≤ i ∧ i ≤ maxNatural then .int i
  else .real ((Binary64.ofNat i.natAbs).withSign (i < 0))

def ofNat (n : Nat) : Json :=
  .int n

def ofString? (s : Option String) : Json :=
  s.elim .null .str

def strings (items : List String) : Json :=
  .arr (items.map .str)

-- The value of a key; of several the last one counts.
def get? (key : String) : Json → Option Json
  | .obj fields => (fields.findRev? fun field => field.1 == key).map Prod.snd
  | _ => none

def get (key : String) (j : Json) : Json :=
  (j.get? key).getD .null

end Json

end StatsDaemon
