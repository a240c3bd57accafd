import StatsDaemon.Key

namespace StatsDaemon

structure Series where
  name : String
  tags : Tags
  deriving DecidableEq

def Key.series (k : Key) : Series :=
  ⟨k.name, k.tags⟩

namespace Series

def le (s t : Series) : Bool :=
  if s.name < t.name then true
  else if t.name < s.name then false
  else !t.tags.lt s.tags

end Series

end StatsDaemon
