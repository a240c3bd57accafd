import StatsDaemon.Yaml.Token
import StatsDaemon.Yaml.Token.Scalar

namespace StatsDaemon.Yaml

-- A place that turns out to be a key if a colon follows.
structure KeyCandidate where
  position : Nat
  -- Whether nothing but a key can stand here.
  required : Bool
  index : Nat
  line : Nat
  column : Nat

structure Lexer where
  cursor : Cursor
  tokens : Array Token := #[]
  indent : Int := -1
  outer : List Int := []
  -- The candidate of the block context, below those of the open flow collections.
  candidates : List (Option KeyCandidate) := [none]
  keyAllowed : Bool := true

namespace Lexer

def inFlow (s : Lexer) : Bool :=
  1 < s.candidates.length

def push (s : Lexer) (t : Token) : Lexer :=
  { s with tokens := s.tokens.push t }

def mark (s : Lexer) (t : Token) (width : Nat) : Lexer :=
  { s with tokens := s.tokens.push t, cursor := s.cursor.advance width }

-- Gives up the innermost candidate, which must not be a required one.
def dropKey (s : Lexer) : Option Lexer :=
  match s.candidates with
  | some key :: rest => if key.required then none else some { s with candidates := none :: rest }
  | _ => some s

def saveKey (s : Lexer) : Option Lexer := do
  if !s.keyAllowed then some s
  else
    let s ← s.dropKey
    let c := s.cursor
    let key : KeyCandidate :=
      { position := s.tokens.size
        required := !s.inFlow && s.indent = c.column
        index := c.index, line := c.line, column := c.column }
    some { s with candidates := some key :: s.candidates.tail }

-- A candidate on a line before, or too far back, is none any more.
def isStale (c : Cursor) (key : KeyCandidate) : Bool :=
  key.line < c.line || key.index + 1024 < c.index

def dropStaleKeys (s : Lexer) : Option Lexer := do
  let candidates ← s.candidates.mapM fun
    | some key =>
      if !isStale s.cursor key then some (some key) else if key.required then none else some none
    | none => some none
  some { s with candidates }

def openBlock (s : Lexer) (column position : Nat) (t : Token) : Lexer :=
  if s.inFlow || column ≤ s.indent then s
  else
    { s with
      indent := column
      outer := s.indent :: s.outer
      tokens := s.tokens.insertIdxIfInBounds position t }

def closeBlocks (column : Int) : List Int → Lexer → Lexer
  | outer, s =>
    if s.inFlow || s.indent ≤ column then s
    else match outer with
      | [] => s
      | indent :: outer =>
        closeBlocks column outer { s with indent, outer, tokens := s.tokens.push .blockEnd }

def closeTo (s : Lexer) (column : Int) : Lexer :=
  closeBlocks column s.outer s

-- Skips blanks, comments and line breaks. A tab counts as a blank only where no block starts.
def skipToToken : Nat → Lexer → Lexer
  | 0, s => s
  | fuel + 1, s =>
    let c := s.cursor
    let c := if c.column = 0 && c.peek? = some byteOrderMark then c.skip else c
    let c := c.skipWhile fun b => b = ' ' || (b = '\t' && (s.inFlow || !s.keyAllowed))
    let c := if c.peek? = some '#' then c.skipWhile (!isBreak ·) else c
    if c.peek?.any isBreak then
      skipToToken fuel { s with cursor := c.skipBreak, keyAllowed := s.keyAllowed || !s.inFlow }
    else { s with cursor := c }

-- Ends all that the last line left open, before a directive or a document marker.
def endDocument (s : Lexer) : Option Lexer := do
  let s ← (s.closeTo (-1)).dropKey
  some { s with keyAllowed := false }

def documentMarker (s : Lexer) (t : Token) : Option Lexer := do
  some ((← s.endDocument).mark t 3)

def openFlow (s : Lexer) (t : Token) : Option Lexer := do
  let s ← s.saveKey
  some ({ s with candidates := none :: s.candidates, keyAllowed := true }.mark t 1)

def closeFlow (s : Lexer) (t : Token) : Option Lexer := do
  let s ← s.dropKey
  let candidates := if s.inFlow then s.candidates.tail else s.candidates
  some ({ s with candidates, keyAllowed := false }.mark t 1)

def flowEntry (s : Lexer) : Option Lexer := do
  some ({ ← s.dropKey with keyAllowed := true }.mark .flowEntry 1)

def blockEntry (s : Lexer) : Option Lexer := do
  if !s.inFlow && !s.keyAllowed then none
  let s ← (s.openBlock s.cursor.column s.tokens.size .blockSequenceStart).dropKey
  some ({ s with keyAllowed := true }.mark .blockEntry 1)

def explicitKey (s : Lexer) : Option Lexer := do
  if !s.inFlow && !s.keyAllowed then none
  let s ← (s.openBlock s.cursor.column s.tokens.size .blockMappingStart).dropKey
  some ({ s with keyAllowed := !s.inFlow }.mark .key 1)

-- A colon makes the candidate a key; without one it belongs to an explicit key.
def value (s : Lexer) : Option Lexer :=
  match s.candidates with
  | some key :: rest =>
    let s := { s with tokens := s.tokens.insertIdxIfInBounds key.position .key }
    let s := s.openBlock key.column key.position .blockMappingStart
    some ({ s with candidates := none :: rest, keyAllowed := false }.mark .value 1)
  | _ => do
    if !s.inFlow && !s.keyAllowed then none
    let s := s.openBlock s.cursor.column s.tokens.size .blockMappingStart
    some ({ s with keyAllowed := !s.inFlow }.mark .value 1)

def readNumber (c : Cursor) : Option (Nat × Cursor) :=
  let digits := c.rest.takeWhile Char.isDigit
  if digits.isEmpty || 9 < digits.length then none
  else
    some (digits.foldl (fun n d => 10 * n + (d.toNat - '0'.toNat)) 0, c.advance digits.length)

def versionDirective (c : Cursor) : Option (Token × Cursor) := do
  let (major, c) ← readNumber (c.skipWhile isBlank)
  if c.peek? ≠ some '.' then none
  let (minor, c) ← readNumber c.skip
  some (.version major minor, c)

-- A handle: one exclamation mark, or a word between two of them.
def readHandle (c : Cursor) : Option (List Char × Cursor) :=
  if c.peek? ≠ some '!' then none
  else
    let word := c.skip.rest.takeWhile isWord
    let c := c.advance (word.length + 1)
    if c.peek? = some '!' then some ('!' :: (word ++ ['!']), c.skip) else some ('!' :: word, c)

def isUriChar (verbatim : Bool) (c : Char) : Bool :=
  isWord c || ";/?:@&=+$.%!~*'()".toList.contains c
    || (verbatim && (c = ',' || c = '[' || c = ']'))

def unescapeUri : List Char → Option (List UInt8)
  | [] => some []
  | '%' :: a :: b :: rest => do
    let a ← hexValue a
    let b ← hexValue b
    some (UInt8.ofNat (16 * a + b) :: (← unescapeUri rest))
  | '%' :: _ => none
  | c :: rest => do
    some ((String.singleton c).toUTF8.toList ++ (← unescapeUri rest))

def readUri (verbatim : Bool) (head : List Char) (c : Cursor) : Option (String × Cursor) := do
  let text := c.rest.takeWhile (isUriChar verbatim)
  if text.isEmpty && head.isEmpty then none
  let bytes ← unescapeUri text
  let decoded ← String.fromUTF8? (ByteArray.mk bytes.toArray)
  some (String.ofList head.tail ++ decoded, c.advance text.length)

def tagDirective (c : Cursor) : Option (Token × Cursor) := do
  let (handle, c) ← readHandle (c.skipWhile isBlank)
  if handle ≠ ['!'] && (handle.getLast? ≠ some '!') then none
  if !c.peek?.any isBlank then none
  let (start, c) ← readUri true [] (c.skipWhile isBlank)
  if !isGap c.peek? then none
  some (.tagHandle (String.ofList handle) start, c)

def directive (s : Lexer) : Option Lexer := do
  let s ← s.endDocument
  let c := s.cursor.skip
  let name := c.rest.takeWhile isWord
  let c := c.advance name.length
  if name.isEmpty || !isGap c.peek? then none
  let (token, c) ←
    if name = ['Y', 'A', 'M', 'L'] then versionDirective c
    else if name = ['T', 'A', 'G'] then tagDirective c
    else none
  let c := c.skipWhile isBlank
  let c := if c.peek? = some '#' then c.skipWhile (!isBreak ·) else c
  if !c.peek?.all isBreak then none
  some { s.push token with cursor := c.readBreak.2 }

def node (s : Lexer) (t : Token) (c : Cursor) : Option Lexer := do
  some { (← s.saveKey).push t with cursor := c, keyAllowed := false }

def anchor (s : Lexer) (ofName : String → Token) : Option Lexer := do
  let name := s.cursor.skip.rest.takeWhile isWord
  let c := s.cursor.advance (name.length + 1)
  let ends := isGap c.peek? || c.peek?.any ("?:,]\x7d%@\x60".toList.contains ·)
  if name.isEmpty || !ends then none
  s.node (ofName (String.ofList name)) c

def readTag (c : Cursor) : Option (Token × Cursor) := do
  if c.ahead? 1 = some '<' then
    let (suffix, c) ← readUri true [] (c.advance 2)
    if c.peek? ≠ some '>' then none
    some (.tag "" suffix, c.skip)
  else
    let (handle, c) ← readHandle c
    if 1 < handle.length && handle.getLast? = some '!' then
      let (suffix, c) ← readUri false [] c
      some (.tag (String.ofList handle) suffix, c)
    else
      -- What looked like a handle is the start of a local tag; one mark alone is a whole tag.
      let (suffix, c) ← readUri false handle c
      some (if suffix.isEmpty then .tag "" "!" else .tag "!" suffix, c)

def tag (s : Lexer) : Option Lexer := do
  let (token, c) ← readTag s.cursor
  if !isGap c.peek? && !(s.inFlow && c.peek? = some ',') then none
  s.node token c

def quoted (s : Lexer) (single : Bool) : Option Lexer := do
  let r ← scanQuoted single s.cursor
  s.node (.scalar false (String.ofList r.text)) r.cursor

def plain (s : Lexer) : Option Lexer := do
  let s' ← s.saveKey
  let r ← scanPlain s.inFlow (s.indent + 1).toNat s.cursor
  some
    { s'.push (.scalar true (String.ofList r.text)) with
      cursor := r.cursor, keyAllowed := r.broken }

def block (s : Lexer) (literal : Bool) : Option Lexer := do
  let s ← s.dropKey
  let r ← scanBlock literal s.indent s.cursor
  some
    { s.push (.scalar false (String.ofList r.text)) with cursor := r.cursor, keyAllowed := true }

def isIndicator (c : Char) : Bool :=
  "-?:,[]\x7b\x7d#&*!|>'\"%@\x60".toList.contains c

def startsPlain (s : Lexer) (c : Char) (next : Option Char) : Bool :=
  (!isIndicator c && !isGap (some c)) || (c = '-' && !next.any isBlank)
    || (!s.inFlow && (c = '?' || c = ':') && !isGap next)

def token (s : Lexer) (c : Char) : Option Lexer :=
  let next := s.cursor.ahead? 1
  let alone := isGap next
  if s.cursor.column = 0 && c = '%' then s.directive
  else if s.cursor.isMarker '-' then s.documentMarker .documentStart
  else if s.cursor.isMarker '.' then s.documentMarker .documentEnd
  else if c = '[' then s.openFlow .flowSequenceStart
  else if c = '\x7b' then s.openFlow .flowMappingStart
  else if c = ']' then s.closeFlow .flowSequenceEnd
  else if c = '\x7d' then s.closeFlow .flowMappingEnd
  else if c = ',' then s.flowEntry
  else if c = '-' && alone then s.blockEntry
  else if c = '?' && (s.inFlow || alone) then s.explicitKey
  else if c = ':' && (s.inFlow || alone) then s.value
  else if c = '*' then s.anchor .alias
  else if c = '&' then s.anchor .anchor
  else if c = '!' then s.tag
  else if c = '|' && !s.inFlow then s.block true
  else if c = '>' && !s.inFlow then s.block false
  else if c = '\'' then s.quoted true
  else if c = '"' then s.quoted false
  else if s.startsPlain c next then s.plain
  else none

def run : Nat → Lexer → Option Lexer
  | 0, _ => none
  | fuel + 1, s => do
    let s ← (skipToToken (s.cursor.rest.length + 1) s).dropStaleKeys
    let s := s.closeTo s.cursor.column
    match s.cursor.peek? with
    | none => (s.closeTo (-1)).dropKey
    | some c => run fuel (← s.token c)

end Lexer

def Token.ofText? (text : List Char) : Option (List Token) := do
  let text := if text.head? = some byteOrderMark then text.tail else text
  if !text.all isAllowed then none
  let s ← Lexer.run (text.length + 2) { cursor := { rest := text } }
  some s.tokens.toList

end StatsDaemon.Yaml
