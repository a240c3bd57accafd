import StatsDaemon.Tags

namespace StatsDaemon

inductive Priority where
  | normal
  | low
  deriving DecidableEq, Repr

namespace Priority

def name : Priority → String
  | .normal => "normal"
  | .low => "low"

def ofName? (name : String) : Option Priority :=
  if name = "normal" then some .normal
  else if name = "low" then some .low
  else none

theorem ofName_name (p : Priority) : ofName? p.name = some p := by
  cases p <;> rfl

end Priority

inductive AlertType where
  | info
  | warning
  | error
  | success
  deriving DecidableEq, Repr

namespace AlertType

def name : AlertType → String
  | .info => "info"
  | .warning => "warning"
  | .error => "error"
  | .success => "success"

def ofName? (name : String) : Option AlertType :=
  if name = "info" then some .info
  else if name = "warning" then some .warning
  else if name = "error" then some .error
  else if name = "success" then some .success
  else none

theorem ofName_name (t : AlertType) : ofName? t.name = some t := by
  cases t <;> rfl

end AlertType

structure Event where
  title : String
  text : String
  -- Seconds since the epoch, as sent by the client.
  timestamp : Option Int := none
  hostname : Option String := none
  priority : Priority := .normal
  alertType : AlertType := .info
  aggregationKey : Option String := none
  sourceTypeName : Option String := none
  tags : Tags := .empty
  source : Option String := none
  deriving DecidableEq

end StatsDaemon
