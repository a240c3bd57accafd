import StatsDaemon.Decimal.Layout
import StatsDaemon.Net.Url
import StatsDaemon.Text.Pieces

namespace StatsDaemon.Http

structure Request where
  method : String
  -- What is asked for, with the query.
  target : String
  host : String
  headers : List (String × String) := []
  body : List UInt8 := []

def Request.text (r : Request) : List UInt8 :=
  let length := String.ofList (Decimal.digitsOf r.body.length)
  let headers := ("host", r.host) :: r.headers
    ++ [("content-length", length), ("connection", "close")]
  let lines := (r.method ++ " " ++ r.target ++ " HTTP/1.1")
    :: headers.map fun (name, value) => name ++ ": " ++ value
  (String.join (lines.map (· ++ "\r\n")) ++ "\r\n").toUTF8.toList ++ r.body

structure Response where
  status : Nat
  body : List UInt8
  deriving DecidableEq

def lineEnd : List UInt8 := [13, 10]

def asciiText (bytes : List UInt8) : List Char :=
  bytes.map fun b => Char.ofNat b.toNat

-- The value of a header in the lines of a head; its name may be in any case.
def header? (name : String) (lines : List (List UInt8)) : Option (List Char) :=
  lines.findSome? fun line =>
    match Text.cut ':' (asciiText line) with
    | some (other, value) =>
      if other.map Char.toLower = name.toList then some (value.dropWhile (· = ' ')) else none
    | none => none

-- A body in chunks, each after a line with its length; the empty chunk is the last one.
def joinChunks : Nat → List UInt8 → Option (List UInt8)
  | 0, _ => none
  | fuel + 1, bytes => do
    let (size, rest) ← Text.cutAt lineEnd bytes
    let (length, _) ← Net.number 16 8 0xffffffff true (asciiText size)
    if length = 0 then some []
    else if rest.length < length then none
    else
      let rest' := rest.drop length
      let (_, more) ← Text.cutAt lineEnd rest'
      (joinChunks fuel more).map (rest.take length ++ ·)

-- A chunk with its line takes more than one byte.
def bodyOf (lines : List (List UInt8)) (bytes : List UInt8) : Option (List UInt8) :=
  if header? "transfer-encoding" lines = some "chunked".toList then joinChunks bytes.length bytes
  else match header? "content-length" lines with
    | some digits =>
      match Net.number 10 18 0xffffffffffffffff true digits with
      | some (length, _) => if bytes.length < length then none else some (bytes.take length)
      | none => none
    | none => some bytes

def headLines (head : List UInt8) : List (List UInt8) :=
  (Text.pieces 10 head).map fun line => if line.getLast? = some 13 then line.dropLast else line

def Response.read? (bytes : List UInt8) : Option Response := do
  let (head, rest) ← Text.cutAt (lineEnd ++ lineEnd) bytes
  match headLines head with
  | [] => none
  | first :: lines =>
    let (_, afterVersion) ← Text.cut ' ' (asciiText first)
    let (status, _) ← Net.number 10 3 999 true afterVersion
    some ⟨status, ← bodyOf lines rest⟩

structure Endpoint where
  host : String
  port : Nat
  target : String
  deriving DecidableEq

-- Where to connect for a URL. The host of a normal URL has no colon outside of brackets.
def endpoint? (u : Net.Url) : Option Endpoint := do
  if u.scheme ≠ "http" then none
  else
    let authority ← u.authority
    let address := match Net.Url.cutLast '@' authority.toList with
      | some (_, address) => address
      | none => authority.toList
    let (host, port) := Net.Url.cutPort address
    let port ← if port.isEmpty then some 80
      else (Net.number 10 5 65535 true port).map Prod.fst
    some ⟨String.ofList host, port, u.path ++ u.query.elim "" ("?" ++ ·)⟩

end StatsDaemon.Http
