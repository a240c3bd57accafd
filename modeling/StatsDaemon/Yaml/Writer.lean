import StatsDaemon.Json.Writer
import StatsDaemon.Yaml.Schema

namespace StatsDaemon.Yaml

-- Doubles are laid out as in JSON, but exponents have no plus sign.
def realLayout : Decimal.Layout :=
  { Json.realLayout with signsExponent := false, nan := ".nan", infinity := ".inf" }

def isPrintable (c : Char) : Bool :=
  let n := c.toNat
  n = 0x0a || (0x20 ≤ n && n ≤ 0x7e) || (0xa0 ≤ n && n ≤ 0xfffd && c ≠ byteOrderMark)

structure Trait where
  char : Char
  before : Option Char
  after : Option Char

def traits (before : Option Char) : List Char → List Trait
  | [] => []
  | c :: rest => ⟨c, before, rest.head?⟩ :: traits (some c) rest

def Trait.isIndicator (t : Trait) : Bool :=
  match t.before with
  | none =>
    "#,[]\x7b\x7d&*!|>'\"%@\x60".toList.contains t.char
      || ((t.char = '?' || t.char = ':' || t.char = '-') && isGap t.after)
  | some b => (t.char = ':' && isGap t.after) || (t.char = '#' && isGap (some b))

inductive Style where
  | plain
  | single
  | double
  | literal
  deriving DecidableEq

def hasBlankAtBreak (blankFirst : Bool) (text : List Char) : Bool :=
  (text.zip text.tail).any fun (a, b) =>
    if blankFirst then a = ' ' && isBreak b else isBreak a && b = ' '

-- Whether single quotes or a literal block would lose nothing.
def isRegular (text : List Char) : Bool :=
  text.all isPrintable && !hasBlankAtBreak true text

def plainAllowed (text : List Char) : Bool :=
  let edge (c : Option Char) : Bool := c.any fun c => c = ' ' || isBreak c
  let marked := text.take 3 = ['-', '-', '-'] || text.take 3 = ['.', '.', '.']
  isRegular text && !text.any isBreak && !edge text.head? && !edge text.getLast? && !marked
    && !(traits none text).any Trait.isIndicator

def isAmbiguous (text : String) : Bool :=
  text.isEmpty || isNull text || (readBool text).isSome || isZeroPadded text.toList
    || (integer? text.toList).isSome || (real? text.toList).isSome

def styleOf (text : String) : Style :=
  let chars := text.toList
  let wanted : Style :=
    if isAmbiguous text then .single
    else if chars.contains '\n' then .literal
    else if plainAllowed chars then .plain
    else .single
  match wanted with
  | .literal => if isRegular chars && chars.getLast? ≠ some ' ' then .literal else .double
  | .single => if isRegular chars && !hasBlankAtBreak false chars then .single else .double
  | style => style

def hexDigits (width n : Nat) : List Char :=
  let digits := (Nat.toDigits 16 n).map Char.toUpper
  List.replicate (width - digits.length) '0' ++ digits

def escape (c : Char) : List Char :=
  let n := c.toNat
  let short : Option Char := match n with
    | 0x00 => some '0'
    | 0x07 => some 'a'
    | 0x08 => some 'b'
    | 0x09 => some 't'
    | 0x0a => some 'n'
    | 0x0b => some 'v'
    | 0x0c => some 'f'
    | 0x0d => some 'r'
    | 0x1b => some 'e'
    | 0x22 => some '"'
    | 0x5c => some '\\'
    | 0x85 => some 'N'
    | 0x2028 => some 'L'
    | 0x2029 => some 'P'
    | _ => none
  match short with
  | some s => ['\\', s]
  | none =>
    if n ≤ 0xff then '\\' :: 'x' :: hexDigits 2 n
    else if n ≤ 0xffff then '\\' :: 'u' :: hexDigits 4 n
    else '\\' :: 'U' :: hexDigits 8 n

def doubleQuoted (text : List Char) : List Char :=
  let written (c : Char) : List Char :=
    if !isPrintable c || isBreak c || c = '"' || c = '\\' then escape c else [c]
  '"' :: (text.flatMap written ++ ['"'])

-- Text in single quotes; a line break within it is followed by indentation.
def singleQuoted (indent : Nat) (text : List Char) : List Char :=
  let written (t : Trait) : List Char :=
    let margin := if t.before.any isBreak && !isBreak t.char then List.replicate indent ' ' else []
    margin ++ if t.char = '\'' then ['\'', '\''] else [t.char]
  '\'' :: ((traits none text).flatMap written ++ ['\''])

-- The indicators of a literal block: its indentation if that is not seen, and its end.
def blockHints (text : List Char) : List Char :=
  let start := if text.head?.any fun c => c = ' ' || isBreak c then ['2'] else []
  let stop := match text.reverse with
    | last :: before =>
      if !isBreak last then ['-'] else if before.head?.all isBreak then ['+'] else []
    | [] => ['-']
  start ++ stop

-- The lines of a literal block without the last line break; empty ones are not indented.
def literalBlock (indent : Nat) (text : List Char) : List Char :=
  let written (t : Trait) : List Char :=
    let first := t.before.all isBreak
    (if first && !isBreak t.char then List.replicate indent ' ' else []) ++ [t.char]
  let lines := (traits none text).flatMap written
  '|' :: (blockHints text ++ '\n' :: if text.getLast? = some '\n' then lines.dropLast else lines)

def writeText (indent : Nat) (text : String) : List Char :=
  let chars := text.toList
  match styleOf text with
  | .plain => chars
  | .single => singleQuoted indent chars
  | .double => doubleQuoted chars
  | .literal => literalBlock indent chars

def lineStart (indent : Nat) : List Char :=
  '\n' :: List.replicate indent ' '

-- Whether a key is short enough to be known by the colon behind it.
def isSimpleKey (key : String) : Bool :=
  key.utf8ByteSize ≤ 128 && !key.toList.any isBreak

mutual

-- A value behind a key or a dash at `indent`. A sequence behind a key is indented like it.
def writeNested (behindKey : Bool) (indent : Nat) : Json → List Char
  | .arr [] => " []".toList
  | .obj [] => ' ' :: '\x7b' :: ['\x7d']
  | .arr items =>
    if behindKey then writeItems true indent items else ' ' :: writeItems false (indent + 2) items
  | .obj fields =>
    if behindKey then writeFields true (indent + 2) fields
    else ' ' :: writeFields false (indent + 2) fields
  | .str s => ' ' :: writeText (indent + 2) s
  | .null => " null".toList
  | .bool b => if b then " true".toList else " false".toList
  | .int i => ' ' :: Json.writeInt i
  | .real x => ' ' :: realLayout.render x

def writeItems (newLine : Bool) (indent : Nat) : List Json → List Char
  | [] => []
  | item :: rest =>
    (if newLine then lineStart indent else []) ++ '-' :: writeNested false indent item
      ++ writeItems true indent rest

def writeFields (newLine : Bool) (indent : Nat) : List (String × Json) → List Char
  | [] => []
  | (key, value) :: rest =>
    let start := if newLine then lineStart indent else []
    let line :=
      if isSimpleKey key then
        writeText (indent + 2) key ++ ':' :: writeNested true indent value
      else
        '?' :: ' ' :: writeText (indent + 2) key ++ lineStart indent
          ++ ':' :: writeNested false indent value
    start ++ line ++ writeFields true indent rest

end

def write : Json → List Char
  | .obj (field :: rest) => writeFields false 0 (field :: rest) ++ ['\n']
  | .arr (item :: rest) => writeItems false 0 (item :: rest) ++ ['\n']
  | j => (writeNested true 0 j).tail ++ ['\n']

end StatsDaemon.Yaml

def StatsDaemon.Json.yamlText (j : StatsDaemon.Json) : String :=
  String.ofList (StatsDaemon.Yaml.write j)
