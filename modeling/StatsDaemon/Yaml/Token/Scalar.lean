import StatsDaemon.Yaml.Character

namespace StatsDaemon.Yaml

structure Gap where
  blanks : List Char := []
  breaks : List Char := []
  broken : Bool
  cursor : Cursor

namespace Gap

-- Reads a gap. A tab that stands for indentation below `indent` is refused.
def read (indent : Nat) : Nat → Gap → Option Gap
  | 0, g => some g
  | fuel + 1, g =>
    match g.cursor.peek? with
    | none => some g
    | some c =>
      if isBlank c then
        if g.broken && g.cursor.column < indent && c = '\t' then none
        else
          read indent fuel
            { g with
              blanks := if g.broken then g.blanks else g.blanks ++ [c]
              cursor := g.cursor.skip }
      else if isBreak c then
        let (text, cursor) := g.cursor.readBreak
        read indent fuel { blanks := [], breaks := g.breaks ++ text, broken := true, cursor }
      else some g

def ofCursor (indent : Nat) (broken : Bool) (cursor : Cursor) : Option Gap :=
  read indent cursor.rest.length { broken, cursor }

-- Line breaks as they are read: one of them is a space, of several the first is dropped.
def fold : List Char → List Char
  | ['\n'] => [' ']
  | '\n' :: more => more
  | breaks => breaks

def text (g : Gap) : List Char :=
  if g.broken then fold g.breaks else g.blanks

end Gap

def isFlowIndicator (c : Char) : Bool :=
  c = ',' || c = '[' || c = ']' || c = '\x7b' || c = '\x7d'

-- A word of a plain scalar. In a flow collection a colon before an indicator is refused.
def plainWord (flow : Bool) : List Char → Option (List Char)
  | [] => some []
  | c :: rest =>
    let next := rest.head?
    if isGap (some c) then some []
    else if flow && c = ':' && next.any (fun n => isFlowIndicator n || n = '?') then none
    else if (c = ':' && isGap next) || (flow && isFlowIndicator c) then some []
    else (plainWord flow rest).map (c :: ·)

structure Scanned where
  text : List Char
  -- Whether a line break follows, within the scalar's reach.
  broken : Bool := false
  cursor : Cursor

def plainWords (flow : Bool) (indent : Nat) : Nat → List Char → Gap → Option Scanned
  | 0, _, _ => none
  | fuel + 1, text, gap => do
    let cursor := gap.cursor
    if cursor.isDocumentMarker || cursor.peek? = some '#' then
      some { text, broken := gap.broken, cursor }
    else
      let word ← plainWord flow cursor.rest
      let (text, broken) :=
        if word.isEmpty then (text, gap.broken) else (text ++ gap.text ++ word, false)
      let cursor := cursor.advance word.length
      match cursor.peek? with
      | none => some { text, broken, cursor }
      | some c =>
        if !isGap (some c) then some { text, broken, cursor }
        else
          let gap ← Gap.ofCursor indent false cursor
          if !flow && gap.cursor.column < indent then
            some { text, broken := gap.broken, cursor := gap.cursor }
          else plainWords flow indent fuel text gap

def scanPlain (flow : Bool) (indent : Nat) (cursor : Cursor) : Option Scanned :=
  plainWords flow indent (cursor.rest.length + 1) [] { broken := false, cursor }

def hexValue (c : Char) : Option Nat :=
  if c.isDigit then some (c.toNat - '0'.toNat)
  else if 'a' ≤ c ∧ c ≤ 'f' then some (c.toNat - 'a'.toNat + 10)
  else if 'A' ≤ c ∧ c ≤ 'F' then some (c.toNat - 'A'.toNat + 10)
  else none

def readCode (digits : Nat) (text : List Char) : Option Char := do
  let code := text.take digits
  if code.length < digits then none
  let n ← code.foldlM (fun n c => (hexValue c).map (16 * n + ·)) 0
  if n.isValidChar then some (Char.ofNat n) else none

def readEscape : List Char → Option (Char × Nat)
  | '0' :: _ => some ('\x00', 1)
  | 'a' :: _ => some ('\x07', 1)
  | 'b' :: _ => some ('\x08', 1)
  | 't' :: _ | '\t' :: _ => some ('\t', 1)
  | 'n' :: _ => some ('\n', 1)
  | 'v' :: _ => some ('\x0b', 1)
  | 'f' :: _ => some ('\x0c', 1)
  | 'r' :: _ => some ('\r', 1)
  | 'e' :: _ => some ('\x1b', 1)
  | ' ' :: _ => some (' ', 1)
  | '"' :: _ => some ('"', 1)
  | '/' :: _ => some ('/', 1)
  | '\\' :: _ => some ('\\', 1)
  | 'N' :: _ => some ('\x85', 1)
  | '_' :: _ => some ('\xa0', 1)
  | 'L' :: _ => some ('\u2028', 1)
  | 'P' :: _ => some ('\u2029', 1)
  | 'x' :: rest => (readCode 2 rest).map (·, 3)
  | 'u' :: rest => (readCode 4 rest).map (·, 5)
  | 'U' :: rest => (readCode 8 rest).map (·, 9)
  | _ => none

def quotedWord (single : Bool) : Nat → List Char → Cursor → Option (List Char × Bool × Cursor)
  | 0, _, _ => none
  | fuel + 1, text, cursor =>
    match cursor.rest with
    | [] => some (text, false, cursor)
    | '\'' :: rest =>
      if !single then quotedWord single fuel (text ++ ['\'']) cursor.skip
      else if rest.head? = some '\'' then
        quotedWord single fuel (text ++ ['\'']) (cursor.advance 2)
      else some (text, false, cursor)
    | c :: rest =>
      if isGap (some c) || (!single && c = '"') then some (text, false, cursor)
      else if !single && c = '\\' then
        if rest.head?.any isBreak then some (text, true, cursor.skip.skipBreak)
        else do
          let (escaped, length) ← readEscape rest
          quotedWord single fuel (text ++ [escaped]) (cursor.advance (length + 1))
      else quotedWord single fuel (text ++ [c]) cursor.skip

def quotedWords (single : Bool) : Nat → List Char → Cursor → Option Scanned
  | 0, _, _ => none
  | fuel + 1, text, cursor => do
    if cursor.isDocumentMarker || cursor.rest.isEmpty then none
    let (text, escapedBreak, cursor) ← quotedWord single (cursor.rest.length + 1) text cursor
    if cursor.peek? = some (if single then '\'' else '"') then
      some { text, cursor := cursor.skip }
    else
      let gap ← Gap.ofCursor 0 escapedBreak cursor
      -- After an escaped line break nothing is folded.
      let between := if escapedBreak then gap.breaks else gap.text
      quotedWords single fuel (text ++ between) gap.cursor

def scanQuoted (single : Bool) (cursor : Cursor) : Option Scanned :=
  quotedWords single (cursor.rest.length + 1) [] cursor.skip

inductive Chomping where
  | clip
  | strip
  | keep
  deriving DecidableEq

-- The indicators after the mark of a block: chomping and indentation in either order.
def readHeader (cursor : Cursor) : Option (Chomping × Option Nat × Cursor) :=
  let chomping (c : Cursor) : Option Chomping × Cursor := match c.peek? with
    | some '+' => (some .keep, c.skip)
    | some '-' => (some .strip, c.skip)
    | _ => (none, c)
  let indentation (c : Cursor) : Option Nat × Cursor := match c.peek? with
    | some d => if d.isDigit then (some (d.toNat - '0'.toNat), c.skip) else (none, c)
    | none => (none, c)
  let (chomp, afterChomp) := chomping cursor
  let (indent, cursor) := indentation afterChomp
  let (chomp, cursor) := match chomp with
    | some chomp => (chomp, cursor)
    | none =>
      if indent.isNone then (.clip, cursor)
      else
        let (chomp, cursor) := chomping cursor
        (chomp.getD .clip, cursor)
  if indent = some 0 then none else some (chomp, indent, cursor)

structure Margin where
  breaks : List Char := []
  widest : Nat := 0
  cursor : Cursor

-- Skips indentation and empty lines. A tab that stands for indentation is refused.
def Margin.read (indent : Option Nat) : Nat → Margin → Option Margin
  | 0, m => some m
  | fuel + 1, m =>
    let inside (c : Cursor) : Bool := indent.all fun i => c.column < i
    let spaces := (m.cursor.rest.takeWhile (· = ' ')).length
    let cursor := m.cursor.advance <| match indent with
      | some i => min spaces (i - m.cursor.column)
      | none => spaces
    let widest := max m.widest cursor.column
    if inside cursor && cursor.peek? = some '\t' then none
    else if cursor.peek?.any isBreak then
      let (text, cursor) := cursor.readBreak
      Margin.read indent fuel { breaks := m.breaks ++ text, widest, cursor }
    else some { m with widest, cursor }

def Margin.ofCursor (indent : Option Nat) (cursor : Cursor) : Option Margin :=
  Margin.read indent (cursor.rest.length + 1) { cursor }

structure Block where
  text : List Char := []
  lineBreak : List Char := []
  -- Whether the last line starts with a blank; such lines are not folded.
  blank : Bool := false

def blockLines (literal : Bool) (indent : Nat) : Nat → Block → Margin → Option (Block × Margin)
  | 0, _, _ => none
  | fuel + 1, b, m => do
    let cursor := m.cursor
    if cursor.column ≠ indent || cursor.rest.isEmpty then some (b, m)
    else
      let blank := cursor.peek?.any isBlank
      let joint :=
        if !literal && b.lineBreak.head? = some '\n' && !b.blank && !blank then
          if m.breaks.isEmpty then [' '] else []
        else b.lineBreak
      let line := cursor.rest.takeWhile (!isBreak ·)
      let (lineBreak, cursor) := (cursor.advance line.length).readBreak
      let m' ← Margin.ofCursor (some indent) cursor
      blockLines literal indent fuel
        { text := b.text ++ joint ++ m.breaks ++ line, lineBreak, blank } m'

def scanBlock (literal : Bool) (parent : Int) (cursor : Cursor) : Option Scanned := do
  let (chomping, increment, cursor) ← readHeader cursor.skip
  let cursor := cursor.skipWhile isBlank
  let cursor :=
    if cursor.peek? = some '#' then cursor.skipWhile (!isBreak ·) else cursor
  if !(cursor.peek?.all isBreak) then none
  let cursor := cursor.readBreak.2
  let indent := increment.map fun i => if 0 ≤ parent then parent.toNat + i else i
  let margin ← Margin.ofCursor indent cursor
  let indent := indent.getD (max margin.widest (max (parent + 1).toNat 1))
  let (block, margin) ← blockLines literal indent (cursor.rest.length + 1) {} margin
  let tail := match chomping with
    | .strip => []
    | .clip => block.lineBreak
    | .keep => block.lineBreak ++ margin.breaks
  some { text := block.text ++ tail, cursor := margin.cursor }

end StatsDaemon.Yaml
