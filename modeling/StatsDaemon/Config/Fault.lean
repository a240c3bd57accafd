import StatsDaemon.Config.Aggregation
import StatsDaemon.Logging
import StatsDaemon.Text.Integer

namespace StatsDaemon.Config

inductive ValueFault where
  | mode
  | address
  | integer (fault : Text.IntegerFault)
  | logName (fault : Logging.NameFault)
  | aggregation (fault : AggregationFault)
  deriving DecidableEq

def ValueFault.message : ValueFault → String
  | .mode => "invalid receiver mode"
  | .address => "invalid socket address syntax"
  | .integer fault => fault.message
  | .logName fault => fault.message
  | .aggregation fault => fault.message

inductive Fault where
  | cannotOpen (path reason : String)
  | badYaml (path : String)
  | badJson
  | invalidField (name : String) (cause : Option ValueFault)
  deriving DecidableEq

namespace Fault

def message : Fault → String
  | .cannotOpen path _ => "could not open config file (file " ++ path ++ ")"
  | .badYaml path => "could not parse yaml config file (file " ++ path ++ ")"
  | .badJson => "could not parse json config file"
  | .invalidField name _ => "invalid config value (field " ++ name ++ ")"

def causes : Fault → List String
  | .cannotOpen _ reason => [reason]
  | .badYaml _ | .badJson => []
  | .invalidField _ cause => (cause.map ValueFault.message).toList

def text (f : Fault) : String :=
  Logging.withCauses f.message f.causes

end Fault

end StatsDaemon.Config
