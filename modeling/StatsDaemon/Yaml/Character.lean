namespace StatsDaemon.Yaml

def isBreak (c : Char) : Bool :=
  c = '\n' || c = '\r' || c = '\x85' || c = '\u2028' || c = '\u2029'

def isBlank (c : Char) : Bool :=
  c = ' ' || c = '\t'

def isGap : Option Char → Bool
  | none => true
  | some c => isBlank c || isBreak c

def isWord (c : Char) : Bool :=
  c.isAlphanum || c = '_' || c = '-'

def byteOrderMark : Char := '\ufeff'

-- Whether a text may hold the character: no controls but tabs and line breaks.
def isAllowed (c : Char) : Bool :=
  let n := c.toNat
  n = 0x09 || n = 0x0a || n = 0x0d || n = 0x85 || (0x20 ≤ n && n ≤ 0x7e) || (0xa0 ≤ n && n ≤ 0xfffd)
    || 0x10000 ≤ n

structure Cursor where
  rest : List Char
  index : Nat := 0
  line : Nat := 0
  column : Nat := 0

namespace Cursor

def peek? (c : Cursor) : Option Char :=
  c.rest.head?

def ahead? (c : Cursor) (n : Nat) : Option Char :=
  c.rest[n]?

def advance (c : Cursor) (n : Nat) : Cursor :=
  { c with rest := c.rest.drop n, index := c.index + n, column := c.column + n }

def skip (c : Cursor) : Cursor :=
  c.advance 1

def skipWhile (c : Cursor) (test : Char → Bool) : Cursor :=
  c.advance (c.rest.takeWhile test).length

-- Goes to the next line; a carriage return and a line feed are one line break.
def skipBreak (c : Cursor) : Cursor :=
  let width := if c.peek? = some '\r' && c.ahead? 1 = some '\n' then 2 else 1
  { rest := c.rest.drop width, index := c.index + width, line := c.line + 1, column := 0 }

def breakChar (c : Char) : Char :=
  if c = '\u2028' || c = '\u2029' then c else '\n'

def readBreak (c : Cursor) : List Char × Cursor :=
  match c.peek? with
  | some b => if isBreak b then ([breakChar b], c.skipBreak) else ([], c)
  | none => ([], c)

-- Whether a marker of three characters stands here alone at the start of a line.
def isMarker (c : Cursor) (mark : Char) : Bool :=
  c.column = 0 && c.rest.take 3 = [mark, mark, mark] && isGap (c.ahead? 3)

def isDocumentMarker (c : Cursor) : Bool :=
  c.isMarker '-' || c.isMarker '.'

end Cursor

end StatsDaemon.Yaml
