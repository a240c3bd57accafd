import StatsDaemon.Document

namespace StatsDaemon.Logging

inductive Level where
  | error
  | warn
  | info
  | debug
  | trace
  | off
  deriving DecidableEq, Repr

inductive Format where
  -- Chosen by where the log goes.
  | auto
  | pretty
  | simplified
  | json
  deriving DecidableEq, Repr

inductive NameFault where
  | level
  | format
  deriving DecidableEq, Repr

def NameFault.message : NameFault → String
  | .level => "invalid log level"
  | .format => "invalid log format"

namespace Level

def name : Level → String
  | .error => "error"
  | .warn => "warn"
  | .info => "info"
  | .debug => "debug"
  | .trace => "trace"
  | .off => "off"

def ofName? (name : String) : Option Level :=
  if name = "error" then some .error
  else if name = "warn" then some .warn
  else if name = "info" then some .info
  else if name = "debug" then some .debug
  else if name = "trace" then some .trace
  else if name = "off" then some .off
  else none

def read (text : String) : Except NameFault Level :=
  let name := String.ofList (text.toList.map Char.toLower)
  match ofName? (if name = "warning" then "warn" else name) with
  | some level => .ok level
  | none => .error .level

-- How much a level lets through; switched off stands above all.
def rank : Level → Nat
  | .error => 0
  | .warn => 1
  | .info => 2
  | .debug => 3
  | .trace => 4
  | .off => 5

def compare (a b : Level) : Ordering :=
  Ord.compare a.rank b.rank

theorem ofName_name (l : Level) : ofName? l.name = some l := by
  cases l <;> rfl

end Level

namespace Format

def name : Format → String
  | .auto => "auto"
  | .pretty => "pretty"
  | .simplified => "simplified"
  | .json => "json"

def ofName? (name : String) : Option Format :=
  if name = "auto" then some .auto
  else if name = "pretty" then some .pretty
  else if name = "simplified" then some .simplified
  else if name = "json" then some .json
  else none

def read (text : String) : Except NameFault Format :=
  match ofName? text with
  | some format => .ok format
  | none => .error .format

theorem ofName_name (f : Format) : ofName? f.name = some f := by
  cases f <;> rfl

end Format

def withCauses (message : String) (causes : List String) : String :=
  causes.foldl (fun text cause => text ++ "\n  caused by: " ++ cause) message

structure Entry where
  level : Level
  message : String
  error : Option String := none
  deriving DecidableEq

end StatsDaemon.Logging
