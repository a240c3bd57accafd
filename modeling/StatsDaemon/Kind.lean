namespace StatsDaemon

inductive Kind where
  | counter
  | gauge
  | set
  | timer
  deriving DecidableEq, Repr

namespace Kind

def code : Kind → String
  | .counter => "c"
  | .gauge => "g"
  | .set => "s"
  | .timer => "ms"

def name : Kind → String
  | .counter => "counter"
  | .gauge => "gauge"
  | .set => "set"
  | .timer => "timer"

def ofCode? (code : String) : Option Kind :=
  if code = "c" then some .counter
  else if code = "g" then some .gauge
  else if code = "s" then some .set
  else if code = "ms" ∨ code = "h" ∨ code = "d" then some .timer
  else none

def ofName? (name : String) : Option Kind :=
  if name = "counter" then some .counter
  else if name = "gauge" then some .gauge
  else if name = "set" then some .set
  else if name = "timer" then some .timer
  else none

def unknownMessage (code : String) : String :=
  "unknown metric type `" ++ code ++ "`"

end Kind

end StatsDaemon
