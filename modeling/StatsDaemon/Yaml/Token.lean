namespace StatsDaemon.Yaml

inductive Token where
  | version (major minor : Nat)
  -- A handle of tags and what it is short for.
  | tagHandle (handle start : String)
  | documentStart
  | documentEnd
  | blockSequenceStart
  | blockMappingStart
  | blockEnd
  | flowSequenceStart
  | flowSequenceEnd
  | flowMappingStart
  | flowMappingEnd
  | blockEntry
  | flowEntry
  | key
  | value
  | alias (name : String)
  | anchor (name : String)
  | tag (handle suffix : String)
  -- A scalar, and whether it is written without quotes.
  | scalar (isPlain : Bool) (text : String)
  deriving DecidableEq, Repr

end StatsDaemon.Yaml
