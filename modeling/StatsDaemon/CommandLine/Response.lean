import StatsDaemon.CommandLine.Arguments
import StatsDaemon.Config.File
import StatsDaemon.Yaml.Writer

namespace StatsDaemon.CommandLine

structure Answer where
  code : Nat
  output : String := ""
  error : String := ""
  deriving DecidableEq

inductive Response where
  | answer (a : Answer)
  | start (c : Config)

def failure (text : String) : Answer :=
  { code := 1, error := "error: " ++ text }

def usage : String :=
  "Usage: " ++ programName ++ " [-c DIR] run [-b ADDR] [--mode udp|tcp] [--flush-interval MS] "
    ++ "[--shutdown-timeout SECS] [-v] [--json]\n"
    ++ "       " ++ programName ++ " [-c DIR] config show"

def Stop.answer : Stop → Answer
  | .version level => { code := 0, output := level.title ++ " " ++ StatsDaemon.version ++ "\n" }
  | .help => { code := 0, output := usage ++ "\n" }
  | .misuse => { code := 2, error := usage }

def Invocation.respond (i : Invocation) (processors : Nat) (path : String) (file : Config.File) :
    Response :=
  match Config.ofFile processors path file with
  | .error fault =>
    .answer <| failure <|
      Logging.withCauses ("could not load config from " ++ i.folder) (fault.message :: fault.causes)
  | .ok c =>
    match i.command with
    | .showConfig => .answer { code := 0, output := c.toJson.yamlText }
    | .run overrides =>
      match c.override overrides with
      | (c, none) => .start c
      | (_, some fault) => .answer (failure fault.text)

inductive StartFault where
  | invalid (fault : Config.Fault)
  -- The address is not free, for a reason that the system gives.
  | bind (reason : Option String)
  deriving DecidableEq

def StartFault.text : StartFault → String
  | .invalid fault => Logging.withCauses "invalid configuration" (fault.message :: fault.causes)
  | .bind reason => Logging.withCauses "bind to interface failed" reason.toList

def check (c : Config) : Except StartFault Unit :=
  c.validate.mapError .invalid

-- The end for a fault at the start: it is logged, and written out only if nothing is logged.
def StartFault.answer (f : StartFault) (c : Config) : Answer :=
  if c.log.level = .off then failure f.text else { code := 1 }

end StatsDaemon.CommandLine
