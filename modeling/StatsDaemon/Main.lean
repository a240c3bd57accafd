import StatsDaemon.CommandLine.Response
import StatsDaemon.Logging.Line
import StatsDaemon.Program.Sockets
import Std.Async.System
import Std.Async.Timer

namespace StatsDaemon.Program

open Std.Async

def readFile (path : String) : IO Config.File := do
  try
    return .content (← IO.FS.readBinFile path).toList
  catch
    | .noFileOrDirectory .. | .inappropriateType .. => return .missing
    | .permissionDenied _ _ details => return .closed details
    | _ => return .content [0xff]

def writeLog (c : Config) (entries : List Logging.Entry) : IO Unit := do
  for e in entries do
    if c.log.level.lets e.level then
      let time := (Std.Time.DateTime.ofTimestamp (← Std.Time.Timestamp.now) .UTC).toISO8601String
      IO.eprintln (e.line c.log.format time)

def carryOut (c : Config) (inbox : Inbox) (orders : Orders) : Async Unit := do
  writeLog c orders.log
  for (number, target, text) in orders.deliveries do
    background do
      let failure := match ← deliver target text with
        | .ok () => none
        | .error fault => some fault.message
      tell inbox (.delivered number failure)
  for host in orders.lookups do
    match c.cloud.map Config.Cloud.source with
    | some (.http service) => background do
        tell inbox (.answered host (← lookUp service host))
    | _ => pure ()

def next (inbox : Inbox) (until? : Option Nat) : Async Happening := do
  let now ← IO.monoMsNow
  let pause := (until?.getD (now + 1000)) - now
  let waited ← Selector.sleep (.ofNat (max pause 1))
  Selectable.one
    #[.case inbox.recvSelector fun h => pure (h.getD .waited),
      .case waited fun _ => pure .waited]

def serve (c : Config) (inbox : Inbox) (start : Live) : Async Unit := do
  let mut live := start
  let mut deadline : Option Nat := none
  repeat
    let now ← IO.monoMsNow
    let due := match live.due? now, deadline with
      | some due, some deadline => some (min due deadline)
      | due, deadline => due.or deadline
    let happening ← next inbox due
    let now ← IO.monoMsNow
    if let .interrupted signal := happening then
      match signal.mode with
      | .immediate => break
      | .graceful => deadline := deadline.or (some (now + c.limits.shutdownTimeout * 1000))
    let (after, orders) := live.step happening now
    live := after
    carryOut c inbox orders
    if live.isFinished then break
    if deadline.any (· ≤ now) then
      writeLog c [⟨.warn, "shutdown timed out, metrics of the last flush window may be lost", none⟩]
      break

def run (c : Config) : Async (Except CommandLine.StartFault Unit) := do
  match CommandLine.check c with
  | .error fault => return .error fault
  | .ok () =>
    let inbox : Inbox ← Std.CloseableChannel.new
    let bound ← try listen c.receiver inbox; pure none catch e => pure (some (toString e))
    match bound with
    | some reason => return .error (.bind (some reason))
    | none =>
      awaitSignal .sigint .interrupt inbox
      awaitSignal .sigquit .quit inbox
      awaitSignal .sigterm .terminate inbox
      let now ← IO.monoMsNow
      let epoch := (← Std.Time.Timestamp.now).toMillisecondsSinceUnixEpoch.toInt.toNat
      let machine ← try some <$> System.getHostName catch _ => pure none
      let stamp (time : Nat) : Nat := (epoch + time - now) / 1000
      serve c inbox (.start c machine stamp epoch now)
      return .ok ()

def answer (a : CommandLine.Answer) : IO UInt32 := do
  IO.print a.output
  if !a.error.isEmpty then IO.eprintln a.error
  return a.code.toUInt32

def respond (arguments : List String) : IO UInt32 := do
  let names := CommandLine.Level.run.items.map CommandLine.Item.variableName
  let environment ← names.filterMapM fun name => do
    return (← IO.getEnv name).map (name, ·)
  match CommandLine.parse (fun name => environment.lookup name) arguments with
  | .error stop => answer stop.answer
  | .ok invocation =>
    let folder ← IO.currentDir
    let path := Config.filePath (Config.within folder.toString invocation.folder)
    let processors := (← System.getCPUInfo).size
    match invocation.respond (max processors 1) path (← readFile path) with
    | .answer a => answer a
    | .start c =>
      match ← (run c).block with
      | .ok () => return 0
      | .error fault =>
        writeLog c [⟨.error, fault.text, none⟩]
        answer (fault.answer c)

end StatsDaemon.Program

def main (arguments : List String) : IO UInt32 :=
  StatsDaemon.Program.respond arguments
