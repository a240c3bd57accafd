namespace StatsDaemon.Line

inductive EventFault where
  | missingTerminator
  | missingSeparator
  | titleLength
  | textLength
  | emptyTitle
  | titleMismatch
  | textMismatch
  | timestamp
  | priority
  | alertType
  deriving DecidableEq, Repr

def EventFault.message : EventFault → String
  | .missingTerminator => "missing header terminator"
  | .missingSeparator => "missing length separator"
  | .titleLength => "invalid title length"
  | .textLength => "invalid text length"
  | .emptyTitle => "empty title"
  | .titleMismatch => "title length mismatch"
  | .textMismatch => "text length mismatch"
  | .timestamp => "invalid timestamp"
  | .priority => "invalid priority"
  | .alertType => "invalid alert type"

inductive Fault where
  | invalidUtf8
  | missingValue
  | emptyName
  | missingKind
  | unknownKind (code : String)
  | invalidValue (text : String)
  | negativeCounter
  | invalidSampleRate (text : String)
  | invalidEvent (fault : EventFault)
  | serviceCheck
  deriving DecidableEq, Repr

namespace Fault

def quoted (text : String) : String :=
  "`" ++ text ++ "`"

def message : Fault → String
  | .invalidUtf8 => "line is not valid utf-8"
  | .missingValue => "missing value separator"
  | .emptyName => "empty metric name"
  | .missingKind => "missing metric type"
  | .unknownKind code => "unknown metric type " ++ quoted code
  | .invalidValue text => "invalid metric value " ++ quoted text
  | .negativeCounter => "negative counter value"
  | .invalidSampleRate text => "invalid sample rate " ++ quoted text
  | .invalidEvent fault => "invalid event: " ++ fault.message
  | .serviceCheck => "service checks are not supported"

def label : Fault → String
  | .invalidUtf8 => "invalid_utf8"
  | .missingValue => "missing_value"
  | .emptyName => "empty_name"
  | .missingKind => "missing_type"
  | .unknownKind _ => "unknown_type"
  | .invalidValue _ => "invalid_value"
  | .negativeCounter => "negative_counter"
  | .invalidSampleRate _ => "invalid_sample_rate"
  | .invalidEvent _ => "invalid_event"
  | .serviceCheck => "service_check"

end Fault

end StatsDaemon.Line
