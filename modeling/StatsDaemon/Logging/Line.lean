import StatsDaemon.Json.Writer
import StatsDaemon.Logging
import StatsDaemon.Version

namespace StatsDaemon.Logging

def Level.lets (threshold level : Level) : Bool :=
  threshold != .off && level != .off && level.rank ≤ threshold.rank

def Level.word : Level → String
  | .error => "ERROR"
  | .warn => " WARN"
  | .info => " INFO"
  | .debug => "DEBUG"
  | .trace => "TRACE"
  | .off => "  OFF"

def Entry.plainLine (e : Entry) : String :=
  e.level.word ++ " " ++ programName ++ ": " ++ e.message
    ++ e.error.elim "" fun error => " error=" ++ error

def Entry.jsonLine (e : Entry) (time : String) : String :=
  Json.text <| .obj <|
    [("timestamp", .str time), ("level", .str e.level.word.trimAscii.toString),
      ("message", .str e.message)] ++ e.error.elim [] fun error => [("error", .str error)]

def Entry.line (f : Format) (time : String) (e : Entry) : String :=
  match f with
  | .json => e.jsonLine time
  | .pretty => e.plainLine
  | .auto | .simplified => time ++ " " ++ e.plainLine

end StatsDaemon.Logging
