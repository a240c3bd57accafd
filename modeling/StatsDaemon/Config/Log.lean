import StatsDaemon.Logging

namespace StatsDaemon.Config

structure Log where
  level : Logging.Level := .info
  format : Logging.Format := .auto
  backtraces : Bool := false
  deriving DecidableEq

namespace Log

open Document

def ofDocument? {δ : Type} [Document δ] (d : δ) : Option Log := do
  let [level, format, backtraces] ← record? ["level", "format", "enable_backtraces"] d | none
  let default : Log := {}
  some
    { level := ← orElse default.level (choose? Logging.Level.ofName?) level
      format := ← orElse default.format (choose? Logging.Format.ofName?) format
      backtraces := ← orElse default.backtraces flag? backtraces }

def toJson (l : Log) : Json :=
  .obj
    [("level", .str l.level.name),
      ("format", .str l.format.name),
      ("enable_backtraces", .bool l.backtraces)]

end Log

end StatsDaemon.Config
