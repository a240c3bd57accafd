import StatsDaemon.Batch.Json
import StatsDaemon.Config.Backends
import StatsDaemon.Http
import StatsDaemon.Json.Writer
import StatsDaemon.Version

namespace StatsDaemon.Backends

inductive Fault where
  -- A file, a stream or a connection cannot be written.
  | write
  | request
  | status (code : Nat)
  deriving DecidableEq, Repr

def Fault.message : Fault → String
  | .write => "failed to write batch"
  | .request => "failed to send request"
  | .status code => "endpoint responded with status " ++ Http.statusText code

def eventLine (e : Event) : String :=
  "event " ++ e.toJson.text ++ "\n"

-- Batches on standard output or in a file: the figures first, then the events.
def linesOf (format : Graphite.Format) (b : Batch Binary64) : String :=
  format.render b ++ String.join (b.events.map eventLine)

inductive Target where
  -- Standard output, or the end of a file.
  | output (path : Option String)
  | connection (address : Net.SocketAddress)
  | endpoint (url : Net.Url)
  deriving DecidableEq

-- Where a batch goes, and as which text; none if there is nothing to do.
def payload? (disabled : DisabledFigures) (backend : Config.Backend) (b : Batch Binary64) :
    Option (Target × String) :=
  match backend with
  | .stdout path =>
    let text := linesOf { disabled } b
    if text.isEmpty then none else some (.output path, text)
  | .graphite target =>
    let text := (target.format disabled).render b
    if text.isEmpty then none else some (.connection target.address, text)
  | .http url skipEmpty =>
    if skipEmpty && b.isEmpty then none else some (.endpoint url, b.toJson.text)
  | .blackhole => none

def unreachable : Target → Fault
  | .output _ | .connection _ => .write
  | .endpoint _ => .request

def ofResponse (status : Nat) : Except Fault Unit :=
  if Http.isSuccess status then .ok () else .error (.status status)

def userAgent : String := programName ++ "/" ++ version

end StatsDaemon.Backends
