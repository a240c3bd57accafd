import StatsDaemon.Json.Reader
import StatsDaemon.Net.Address
import StatsDaemon.Text.Pieces

namespace StatsDaemon.Net

-- In normal form: schemes and hosts in lower case, no dot segments, no default port, and escapes
-- for characters that a part does not hold.
structure Url where
  scheme : String
  -- Credentials, host and port as they stand after the slashes; none without an authority.
  authority : Option String
  path : String
  query : Option String
  fragment : Option String
  deriving DecidableEq, Repr

namespace Url

def text (u : Url) : String :=
  u.scheme ++ ":" ++ (u.authority.elim "" ("//" ++ ·)) ++ u.path
    ++ u.query.elim "" ("?" ++ ·) ++ u.fragment.elim "" ("#" ++ ·)

def upperHex (n : Nat) : Char :=
  if n < 10 then Char.ofNat ('0'.toNat + n) else Char.ofNat ('A'.toNat + (n - 10))

def escapeByte (b : UInt8) : List Char :=
  ['%', upperHex (b.toNat / 16), upperHex (b.toNat % 16)]

def escape (set : List Char) (text : List Char) : List Char :=
  text.flatMap fun c =>
    if c.toNat < 0x20 ∨ 0x7e < c.toNat ∨ c ∈ set then
      (String.singleton c).toUTF8.toList.flatMap escapeByte
    else [c]

def fragmentSet : List Char := [' ', '"', '<', '>', '\x60']
def querySet : List Char := [' ', '"', '#', '<', '>']
def specialQuerySet : List Char := '\'' :: querySet
def pathSet : List Char := ['#', '?', '\x7b', '\x7d'] ++ fragmentSet
def userSet : List Char := pathSet ++ ['/', ':', ';', '=', '@', '[', '\\', ']', '^', '|']

def unescape : List Char → List UInt8
  | '%' :: a :: b :: rest =>
    match Json.hexValue a, Json.hexValue b with
    | some high, some low => UInt8.ofNat (high * 16 + low) :: unescape rest
    | _, _ => 37 :: unescape (a :: b :: rest)
  | c :: rest => (String.singleton c).toUTF8.toList ++ unescape rest
  | [] => []

def defaultPort (scheme : String) : Option Nat :=
  if scheme = "http" ∨ scheme = "ws" then some 80
  else if scheme = "https" ∨ scheme = "wss" then some 443
  else if scheme = "ftp" then some 21
  else none

def isSpecial (scheme : String) : Bool :=
  (defaultPort scheme).isSome || scheme == "file"

def isSchemeChar (c : Char) : Bool :=
  c.isAlphanum || c = '+' || c = '-' || c = '.'

def readScheme (text : List Char) : Option (String × List Char) := do
  let (scheme, rest) ← Text.cut ':' text
  let first ← scheme.head?
  if first.isAlpha ∧ scheme.all isSchemeChar then
    some (String.ofList (scheme.map Char.toLower), rest)
  else none

-- A number of the old notations: hexadecimal, octal or decimal.
def oldNumber (part : List Char) : Option Nat :=
  let read (radix : Nat) (digits : List Char) : Option Nat :=
    if digits.all fun c => (digitValue radix c).isSome then
      some (digits.foldl (fun n c => n * radix + (digitValue radix c).getD 0) 0)
    else none
  match part with
  | [] => none
  | '0' :: 'x' :: digits | '0' :: 'X' :: digits => read 16 digits
  | '0' :: digit :: digits => read 8 (digit :: digits)
  | digits => read 10 digits

def dropLastEmpty (parts : List (List Char)) : List (List Char) :=
  if 1 < parts.length ∧ parts.getLast? = some [] then parts.dropLast else parts

-- A host whose last part is a number is meant as an address.
def endsInNumber (host : List Char) : Bool :=
  match (dropLastEmpty (Text.pieces '.' host)).getLast? with
  | some last => (!last.isEmpty && last.all Char.isDigit) ||
      ((last.take 2 == ['0', 'x'] || last.take 2 == ['0', 'X']) && (oldNumber last).isSome)
  | none => false

def readOldAddress (host : List Char) : Option (List Char) := do
  let parts := dropLastEmpty (Text.pieces '.' host)
  if 4 < parts.length then none
  else
    let numbers ← parts.mapM oldNumber
    let last ← numbers.getLast?
    let front := numbers.dropLast
    let room := Nat.pow 256 (4 - front.length)
    if front.any (255 < ·) ∨ room ≤ last then none
    else
      let all := front.foldl (fun high n => 256 * high + n) 0 * room + last
      some (v4Text [all / 16777216, all / 65536 % 256, all / 256 % 256, all % 256]).toList

def isForbiddenHost (c : Char) : Bool :=
  c.toNat < 0x21 || c.toNat = 0x7f || "#/:<>?@[\\]^|%".toList.contains c

def readHost (host : List Char) : Option (List Char) :=
  match host with
  | [] => none
  | '[' :: rest =>
    if rest.getLast? = some ']' then
      (finished (readV6 rest.dropLast)).map fun groups => ("[" ++ v6Text groups ++ "]").toList
    else none
  | host => do
    let bytes := unescape host
    let text ← String.fromUTF8? (ByteArray.mk bytes.toArray)
    let domain := text.toList.map Char.toLower
    if domain.isEmpty ∨ domain.any isForbiddenHost ∨ domain.any (fun c => 0x7f < c.toNat) then none
    else if endsInNumber domain then readOldAddress domain
    else some domain

def readOpaqueHost (host : List Char) : Option (List Char) :=
  match host with
  | '[' :: rest =>
    if rest.getLast? = some ']' then
      (finished (readV6 rest.dropLast)).map fun groups => ("[" ++ v6Text groups ++ "]").toList
    else none
  | host =>
    if host.any fun c => c ≠ '%' ∧ isForbiddenHost c then none else some (escape [] host)

def cutLast (mark : Char) (text : List Char) : Option (List Char × List Char) :=
  (Text.cut mark text.reverse).map fun (after, before) => (before.reverse, after.reverse)

-- Host and port; the colons within brackets are of the host.
def cutPort (text : List Char) : List Char × List Char :=
  match text with
  | '[' :: _ =>
    match cutLast ']' text with
    | some (host, ':' :: port) => (host ++ [']'], port)
    | some (host, []) => (host ++ [']'], [])
    | _ => (text, [])
  | _ => (Text.cut ':' text).getD (text, [])

def readPort (scheme : String) (port : List Char) : Option (List Char) := do
  if port.isEmpty then some []
  else
    let (n, rest) ← number 10 port.length 65535 true port
    if !rest.isEmpty then none
    else if defaultPort scheme = some n then some []
    else some (':' :: Decimal.digitsOf n)

def readCredentials (text : List Char) : List Char :=
  let (user, password) := (Text.cut ':' text).getD (text, [])
  let password := escape userSet password
  let shown := escape userSet user ++ if password.isEmpty then [] else ':' :: password
  if shown.isEmpty then [] else shown ++ ['@']

def readAuthority (scheme : String) (text : List Char) : Option String := do
  let (credentials, rest) := match cutLast '@' text with
    | some (credentials, rest) => (readCredentials credentials, rest)
    | none => ([], text)
  let (host, port) := cutPort rest
  let host ← if isSpecial scheme then readHost host else readOpaqueHost host
  let port ← readPort scheme port
  if host.isEmpty ∧ !(credentials.isEmpty ∧ port.isEmpty) then none
  else some (String.ofList (credentials ++ host ++ port))

def isDot (segment : List Char) : Bool :=
  let s := String.ofList (segment.map Char.toLower)
  s = "." || s = "%2e"

def isDoubleDot (segment : List Char) : Bool :=
  let s := String.ofList (segment.map Char.toLower)
  s = ".." || s = ".%2e" || s = "%2e." || s = "%2e%2e"

-- Takes dot segments out; the last segment leaves an empty one behind.
def resolve : List (List Char) → List (List Char) → List (List Char)
  | done, [] => done
  | done, segment :: rest =>
    if isDoubleDot segment then
      resolve (done.dropLast ++ if rest.isEmpty then [[]] else []) rest
    else if isDot segment then
      resolve (done ++ if rest.isEmpty then [[]] else []) rest
    else resolve (done ++ [segment]) rest

def normalPath (text : List Char) : String :=
  let segments := match Text.pieces '/' text with
    | [] :: rest => rest
    | segments => segments
  String.ofList ((resolve [] segments).flatMap fun segment => '/' :: escape pathSet segment)

def isTrimmed (c : Char) : Bool := c.toNat ≤ 0x20

def clean (text : List Char) : List Char :=
  let inner := ((text.dropWhile isTrimmed).reverse.dropWhile isTrimmed).reverse
  inner.filter fun c => c ≠ '\t' ∧ c ≠ '\n' ∧ c ≠ '\r'

def cutOption (mark : Char) (text : List Char) : List Char × Option (List Char) :=
  match Text.cut mark text with
  | some (before, after) => (before, some after)
  | none => (text, none)

def parse? (text : String) : Option Url := do
  let (scheme, rest) ← readScheme (clean text.toList)
  let (rest, fragment) := cutOption '#' rest
  let (rest, query) := cutOption '?' rest
  let special := isSpecial scheme
  let queryEscapes := if special then specialQuerySet else querySet
  let query := query.map fun q => String.ofList (escape queryEscapes q)
  let fragment := fragment.map fun f => String.ofList (escape fragmentSet f)
  let rest := if special then rest.map fun c => if c = '\\' then '/' else c else rest
  if scheme = "file" then
    let (host, path) := match Text.dropStart? ['/', '/'] rest with
      | some rest => (rest.takeWhile (· ≠ '/'), rest.dropWhile (· ≠ '/'))
      | none => ([], rest)
    let host ← if host.isEmpty then some [] else readHost host
    let host := if host = "localhost".toList then [] else host
    some ⟨scheme, some (String.ofList host), normalPath path, query, fragment⟩
  else if special then
    let rest := rest.dropWhile (· = '/')
    let authority ← readAuthority scheme (rest.takeWhile (· ≠ '/'))
    some ⟨scheme, some authority, normalPath (rest.dropWhile (· ≠ '/')), query, fragment⟩
  else
    match Text.dropStart? ['/', '/'] rest with
    | some rest =>
      let authority ← readAuthority scheme (rest.takeWhile (· ≠ '/'))
      let path := rest.dropWhile (· ≠ '/')
      let path := if path.isEmpty then "" else normalPath path
      some ⟨scheme, some authority, path, query, fragment⟩
    | none =>
      match rest with
      | '/' :: _ => some ⟨scheme, none, normalPath rest, query, fragment⟩
      | _ => some ⟨scheme, none, String.ofList (escape [] rest), query, fragment⟩

end Url

end StatsDaemon.Net
