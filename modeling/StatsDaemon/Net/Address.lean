import StatsDaemon.Decimal.Layout

namespace StatsDaemon.Net

inductive IpAddress where
  | v4 (octets : List Nat)
  | v6 (groups : List Nat)
  deriving DecidableEq, Repr

structure SocketAddress where
  ip : IpAddress
  port : Nat
  -- Network interface of a link-local address; zero is none.
  zone : Nat := 0
  deriving DecidableEq, Repr

abbrev Reader (β : Type) := List Char → Option (β × List Char)

def digitValue (radix : Nat) (c : Char) : Option Nat :=
  let value :=
    if '0' ≤ c ∧ c ≤ '9' then c.toNat - '0'.toNat
    else if 'a' ≤ c ∧ c ≤ 'z' then c.toNat - 'a'.toNat + 10
    else if 'A' ≤ c ∧ c ≤ 'Z' then c.toNat - 'A'.toNat + 10
    else radix
  if value < radix then some value else none

-- A number of at least one digit, up to `limit`, with all the digits that there are.
def number (radix maxDigits limit : Nat) (leadingZero : Bool) : Reader Nat := fun text =>
  let digits := text.takeWhile fun c => (digitValue radix c).isSome
  let value := digits.foldl (fun n c => n * radix + (digitValue radix c).getD 0) 0
  if digits.isEmpty ∨ maxDigits < digits.length ∨ limit < value then none
  else if !leadingZero ∧ digits.head? = some '0' ∧ 1 < digits.length then none
  else some (value, text.drop digits.length)

def char (c : Char) : Reader Unit
  | first :: rest => if first = c then some ((), rest) else none
  | [] => none

def octet : Reader Nat := number 10 3 255 false

def readV4 : Reader (List Nat) := fun text => do
  let (a, text) ← octet text
  let ((), text) ← char '.' text
  let (b, text) ← octet text
  let ((), text) ← char '.' text
  let (c, text) ← octet text
  let ((), text) ← char '.' text
  let (d, text) ← octet text
  some ([a, b, c, d], text)

def afterColon {β : Type} (first : Bool) (read : Reader β) : Reader β := fun text =>
  if first then read text
  else do
    let ((), text) ← char ':' text
    read text

-- Up to `limit` groups, and what follows them. The last two may be written as an address of the
-- other form; the flag tells whether they are.
def readGroups : Nat → Bool → List Char → List Nat × Bool × List Char
  | 0, _, text => ([], false, text)
  | limit + 1, first, text =>
    let embedded := if limit = 0 then none else afterColon first readV4 text
    match embedded with
    | some ([a, b, c, d], rest) => ([a * 256 + b, c * 256 + d], true, rest)
    | _ =>
      match afterColon first (number 16 4 0xffff true) text with
      | some (group, rest) =>
        let (groups, v4, rest) := readGroups limit false rest
        (group :: groups, v4, rest)
      | none => ([], false, text)

def readV6 : Reader (List Nat) := fun text => do
  let (head, v4, text) := readGroups 8 true text
  if head.length = 8 then some (head, text)
  else if v4 then none
  else do
    let ((), text) ← char ':' text
    let ((), text) ← char ':' text
    let (tail, _, text) := readGroups (7 - head.length) true text
    some (head ++ List.replicate (8 - head.length - tail.length) 0 ++ tail, text)

def finished {β : Type} : Option (β × List Char) → Option β
  | some (value, []) => some value
  | _ => none

def port : Reader Nat := fun text => do
  let ((), text) ← char ':' text
  number 10 text.length 65535 true text

def readSocketV4 : Reader SocketAddress := fun text => do
  let (octets, text) ← readV4 text
  let (port, text) ← port text
  some (⟨.v4 octets, port, 0⟩, text)

def readZone : Reader Nat := fun text =>
  match text with
  | '%' :: rest => number 10 rest.length 0xffffffff true rest
  | _ => some (0, text)

def readSocketV6 : Reader SocketAddress := fun text => do
  let ((), text) ← char '[' text
  let (groups, text) ← readV6 text
  let (zone, text) ← readZone text
  let ((), text) ← char ']' text
  let (port, text) ← port text
  some (⟨.v6 groups, port, zone⟩, text)

def IpAddress.parse? (text : String) : Option IpAddress :=
  ((finished (readV4 text.toList)).map .v4).or ((finished (readV6 text.toList)).map .v6)

def SocketAddress.parse? (text : String) : Option SocketAddress :=
  (finished (readSocketV4 text.toList)).or (finished (readSocketV6 text.toList))

def decimal (n : Nat) : String :=
  String.ofList (Decimal.digitsOf n)

def hexadecimal (n : Nat) : String :=
  String.ofList (Nat.toDigits 16 n)

def v4Text (octets : List Nat) : String :=
  ".".intercalate (octets.map decimal)

def groupsText (groups : List Nat) : String :=
  ":".intercalate (groups.map hexadecimal)

def zeroRun (groups : List Nat) : Nat :=
  (groups.takeWhile (· = 0)).length

def longestRun : Nat → List Nat → Nat × Nat
  | _, [] => (0, 0)
  | start, group :: rest =>
    let here := zeroRun (group :: rest)
    let (later, length) := longestRun (start + 1) rest
    if length ≤ here ∧ 0 < here then (start, here) else (later, length)

-- A run of zeros is left out if it is longer than one group.
def v6Text (groups : List Nat) : String :=
  match groups with
  | [0, 0, 0, 0, 0, 0xffff, high, low] =>
    "::ffff:" ++ v4Text [high / 256, high % 256, low / 256, low % 256]
  | groups =>
    let (start, length) := longestRun 0 groups
    if 1 < length then
      groupsText (groups.take start) ++ "::" ++ groupsText (groups.drop (start + length))
    else groupsText groups

def IpAddress.text : IpAddress → String
  | .v4 octets => v4Text octets
  | .v6 groups => v6Text groups

def SocketAddress.text (a : SocketAddress) : String :=
  match a.ip with
  | .v4 octets => v4Text octets ++ ":" ++ decimal a.port
  | .v6 groups =>
    let zone := if a.zone = 0 then "" else "%" ++ decimal a.zone
    "[" ++ v6Text groups ++ zone ++ "]:" ++ decimal a.port

end StatsDaemon.Net
