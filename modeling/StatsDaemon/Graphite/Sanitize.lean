import StatsDaemon.Text.Blank

namespace StatsDaemon.Graphite

def isPathChar (c : Char) : Bool :=
  c.isAlphanum || c = '_' || c = '.' || c = '-'

def isPathByte (b : UInt8) : Bool :=
  isPathChar (Char.ofNat b.toNat)

-- Blanks become underscores and slashes dashes; what else is not of a path is left out.
def pathChar? (c : Char) : Option Char :=
  if Text.isBlank c then some '_'
  else if c = '/' then some '-'
  else if isPathChar c then some c
  else none

def isCleanPath (text : String) : Bool :=
  text.toUTF8.toList.all isPathByte

-- Text that is clean already is recognised first, and kept.
def sanitizePath (text : String) : String :=
  if isCleanPath text then text else String.ofList (text.toList.filterMap pathChar?)

def isReserved (c : Char) : Bool :=
  Text.isBlank c || c = ';' || c = '=' || c = '~' || c = '!'

def tagChar (c : Char) : Char :=
  if isReserved c then '_' else c

def sanitizeTag (text : String) : String :=
  if text.toList.any isReserved then String.ofList (text.toList.map tagChar) else text

end StatsDaemon.Graphite
