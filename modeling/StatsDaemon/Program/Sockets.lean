import StatsDaemon.Http.Message
import StatsDaemon.Live
import Std.Async.DNS
import Std.Async.Signal
import Std.Async.TCP
import Std.Async.UDP
import Std.Sync.Channel

namespace StatsDaemon.Program

open Std.Async

abbrev Inbox := Std.CloseableChannel Happening

def tell (inbox : Inbox) (h : Happening) : Async Unit := do
  discard <| inbox.send h

def socketAddress (a : Net.SocketAddress) : Std.Net.SocketAddress :=
  let port := a.port.toUInt16
  match a.ip with
  | .v4 octets =>
    .v4 ⟨⟨.ofFn fun i => (octets.getD i.val 0).toUInt8⟩, port⟩
  | .v6 groups =>
    .v6 ⟨⟨.ofFn fun i => (groups.getD i.val 0).toUInt16⟩, port⟩

def ipAddress : Std.Net.SocketAddress → Net.IpAddress
  | .v4 a => .v4 (a.addr.octets.toList.map UInt8.toNat)
  | .v6 a => .v6 (a.addr.segments.toList.map UInt16.toNat)

def readDatagrams (socket : UDP.Socket) (size : Nat) (inbox : Inbox) : Async Unit := do
  repeat
    let happening ← try
      let (data, sender) ← socket.recv size.toUInt64
      match sender with
      | some sender => pure (Happening.datagrams [⟨data.toList, ipAddress sender⟩])
      | none => pure (Happening.datagrams [])
    catch e => pure (Happening.readFailed (toString e))
    tell inbox happening

def readConnection (client : TCP.Socket.Client) (maxLineLength : Nat) (inbox : Inbox) :
    Async Unit := do
  let source := ipAddress (← client.getPeerName)
  let mut framing := Receiver.Framing.ofLimit maxLineLength
  repeat
    match ← client.recv? 65536 with
    | some chunk =>
      let (after, items) := framing.read chunk.toList
      framing := after
      tell inbox (.items source items)
    | none =>
      tell inbox (.items source framing.finish.2)
      break

def reading (inbox : Inbox) (act : Async Unit) : Async Unit := do
  try act
  catch e => tell inbox (.readFailed (toString e))

def acceptConnections (server : TCP.Socket.Server) (maxLineLength : Nat) (inbox : Inbox) :
    Async Unit := do
  repeat
    reading inbox do
      let client ← server.accept
      background (reading inbox (readConnection client maxLineLength inbox))

def listen (c : Config.Receiver) (inbox : Inbox) : Async Unit := do
  match c.mode with
  | .udp =>
    let socket ← UDP.Socket.mk
    socket.bind (socketAddress c.bind)
    background (readDatagrams socket c.readSize inbox)
  | .tcp =>
    let server ← TCP.Socket.Server.mk
    server.bind (socketAddress c.bind)
    server.listen 1024
    background (acceptConnections server c.maxLineLength inbox)

def awaitSignal (code : Std.Async.Signal) (signal : StatsDaemon.Signal) (inbox : Inbox) :
    Async Unit := do
  let waiter ← Std.Async.Signal.Waiter.mk code false
  let wait := waiter.wait
  background do
    discard <| await (← wait)
    tell inbox (.interrupted signal)

def sendTo (address : Std.Net.SocketAddress) (bytes : List UInt8) : Async TCP.Socket.Client := do
  let client ← TCP.Socket.Client.mk
  client.connect address
  client.send ⟨bytes.toArray⟩
  return client

def readAll (client : TCP.Socket.Client) : Async (List UInt8) := do
  let mut bytes : ByteArray := .empty
  repeat
    match ← client.recv? 65536 with
    | some chunk => bytes := bytes ++ chunk
    | none => break
  return bytes.toList

def resolve (host : String) (port : Nat) : Async (List Std.Net.SocketAddress) := do
  let plain := host.toList.filter fun c => c ≠ '[' ∧ c ≠ ']'
  match Net.IpAddress.parse? (String.ofList plain) with
  | some ip => return [socketAddress { ip, port }]
  | none =>
    let found ← DNS.getAddrInfo host ""
    return found.toList.map fun
      | .v4 a => .v4 ⟨a, port.toUInt16⟩
      | .v6 a => .v6 ⟨a, port.toUInt16⟩

def exchange (url : Net.Url) (method : String) (headers : List (String × String))
    (body : List UInt8) : Async (Option Http.Response) := do
  try
    let some e := Http.endpoint? url | return none
    let some address := (← resolve e.host e.port).head? | return none
    let host := if e.port = 80 then e.host else s!"{e.host}:{e.port}"
    let headers := headers ++ [("user-agent", Backends.userAgent), ("accept", "*/*")]
    let client ← sendTo address
      (Http.Request.text { method, target := e.target, host, headers, body })
    return Http.Response.read? (← readAll client)
  catch _ => return none

def deliver (target : Backends.Target) (text : String) : Async (Except Backends.Fault Unit) := do
  try
    match target with
    | .output none =>
      let output ← IO.getStdout
      output.putStr text
      output.flush
      return .ok ()
    | .output (some path) =>
      let file ← IO.FS.Handle.mk path .append
      file.putStr text
      file.flush
      return .ok ()
    | .connection address =>
      let client ← sendTo (socketAddress address) text.toUTF8.toList
      client.shutdown
      return .ok ()
    | .endpoint url =>
      match ← exchange url "POST" [("content-type", "application/json")] text.toUTF8.toList with
      | some response => return Backends.ofResponse response.status
      | none => return .error (Backends.unreachable target)
  catch _ => return .error (Backends.unreachable target)

def lookUp (service : Net.Url) (host : String) : Async Hosts.Answer := do
  match Net.Url.parse? (Hosts.requestUrl service host) with
  | none => return .error .request
  | some url =>
    match ← exchange url "GET" [] [] with
    | none => return .error .request
    | some response =>
      let text := String.fromUTF8? ⟨response.body.toArray⟩
      return Hosts.ofResponse response.status (text.bind fun text => Json.parse? text)

end StatsDaemon.Program
