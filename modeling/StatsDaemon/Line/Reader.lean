import StatsDaemon.Decimal.Reading
import StatsDaemon.Event
import StatsDaemon.Line.Fault
import StatsDaemon.Metric
import StatsDaemon.Text.Blank
import StatsDaemon.Text.Integer
import StatsDaemon.Text.Utf8

namespace StatsDaemon.Line

structure Rules where
  -- Written before every metric name, with a dot.
  scope : Option String := none
  defaultTags : List String := []
  ignoreHost : Bool := false
  -- Malformed lines to log per minute; they are counted in any case.
  badLinesPerMinute : Nat := 0
  logMetrics : Bool := false
  estimatedTags : Nat := 4
  deriving DecidableEq

inductive Record where
  | metric (m : Metric Binary64)
  | event (e : Event)
  deriving DecidableEq

-- The tags of a list: blanks around a tag and empty tags do not count.
def readTags (list : List Char) : List String :=
  ((Text.pieces ',' list).map Text.trim).filterMap fun tag =>
    if tag.isEmpty then none else some (String.ofList tag)

def readNumber (text : List Char) : Except Fault Binary64 :=
  match Decimal.read? text with
  | some x => if x.isFinite then .ok x else .error (.invalidValue (String.ofList text))
  | none => .error (.invalidValue (String.ofList text))

def readValue (kind : Kind) (text : List Char) : Except Fault (Value Binary64) :=
  match kind with
  | .set => .ok (.set (String.ofList text))
  | .counter => do
    let x ← readNumber text
    if x < 0 then .error .negativeCounter else .ok (.counter x)
  | .gauge => (readNumber text).map .gauge
  | .timer => (readNumber text).map .timer

def readRate (text : List Char) : Except Fault Binary64 :=
  match Decimal.read? text with
  | some rate =>
    if 0 < rate ∧ rate ≤ 1 then .ok rate else .error (.invalidSampleRate (String.ofList text))
  | none => .error (.invalidSampleRate (String.ofList text))

-- One field after the type: a sample rate replaces the one before, tags add up.
def readField (state : Binary64 × Tags) (field : List Char) : Except Fault (Binary64 × Tags) :=
  match field with
  | '@' :: rate => (readRate rate).map fun rate => (rate, state.2)
  | '#' :: list => .ok (state.1, state.2.extend (readTags list))
  | _ => .ok state

-- Adds the tags of the rules, and the sender as host unless a host is given.
def Rules.completeTags (rules : Rules) (source : Option String) (tags : Tags) : Tags :=
  let tags := tags.extend rules.defaultTags
  match source with
  | some source =>
    if rules.ignoreHost || tags.hasKey "host" then tags else tags.insert ("host:" ++ source)
  | none => tags

def Rules.fullName (rules : Rules) (name : String) : String :=
  match rules.scope with
  | some scope => if scope.isEmpty then name else scope ++ "." ++ name
  | none => name

def readKind : List (List Char) → Except Fault (Kind × List (List Char))
  | [] => .error .missingKind
  | code :: fields =>
    if code.isEmpty then .error .missingKind
    else match Kind.ofCode? (String.ofList code) with
      | some kind => .ok (kind, fields)
      | none => .error (.unknownKind (String.ofList code))

def readMetric (rules : Rules) (source : Option String) (line : List Char) :
    Except Fault (Metric Binary64) :=
  match Text.pieces '|' line with
  | [] => .error .missingValue
  | pair :: components =>
    match Text.cut ':' pair with
    | none => .error .missingValue
    | some (name, value) => do
      if name.isEmpty then .error .emptyName
      let (kind, fields) ← readKind components
      let value ← readValue kind value
      let (rate, tags) ← fields.foldlM readField (1, .empty)
      .ok
        { name := rules.fullName (String.ofList name)
          value
          sampleRate := rate
          tags := rules.completeTags source tags
          source }

def unescapeBreaks : List Char → List Char
  | '\\' :: 'n' :: rest => '\n' :: unescapeBreaks rest
  | c :: rest => c :: unescapeBreaks rest
  | [] => []

-- The value of a field with one key; the last field of a key counts.
def readAttribute (event : Event) (key value : List Char) : Except EventFault Event :=
  let text := String.ofList value
  match key with
  | ['d'] =>
    match Text.readInteger64? value with
    | some timestamp => .ok { event with timestamp := some timestamp }
    | none => .error .timestamp
  | ['h'] => .ok { event with hostname := some text }
  | ['p'] =>
    match Priority.ofName? text with
    | some priority => .ok { event with priority }
    | none => .error .priority
  | ['t'] =>
    match AlertType.ofName? text with
    | some alertType => .ok { event with alertType }
    | none => .error .alertType
  | ['k'] => .ok { event with aggregationKey := some text }
  | ['s'] => .ok { event with sourceTypeName := some text }
  | _ => .ok event

def readEventField (event : Event) (field : List Char) : Except EventFault Event :=
  match field with
  | '#' :: list => .ok { event with tags := event.tags.extend (readTags list) }
  | _ =>
    match Text.cut ':' field with
    | some (key, value) => readAttribute event key value
    | none => .ok event

def readHeader (header : List Char) : Except EventFault (Nat × Nat × List Char) := do
  let some (lengths, rest) := Text.cutAt ['\x7d', ':'] header | .error .missingTerminator
  let some (title, text) := Text.cut ',' lengths | .error .missingSeparator
  let .ok title := Text.readWord64 title | .error .titleLength
  let .ok text := Text.readWord64 text | .error .textLength
  if title = 0 then .error .emptyTitle
  .ok (title, text, rest)

def frameEvent (header : List Char) :
    Except EventFault (List Char × List Char × List (List Char)) := do
  let (titleLength, textLength, rest) ← readHeader header
  let some (title, rest) := Text.cutBytes titleLength rest | .error .titleMismatch
  let '|' :: rest := rest | .error .titleMismatch
  let some (text, rest) := Text.cutBytes textLength rest | .error .textMismatch
  match rest with
  | [] => .ok (title, text, [])
  | '|' :: fields => .ok (title, text, Text.pieces '|' fields)
  | _ => .error .textMismatch

def readEvent (rules : Rules) (source : Option String) (header : List Char) :
    Except EventFault Event := do
  let (title, text, fields) ← frameEvent header
  let plain : Event :=
    { title := String.ofList title, text := String.ofList (unescapeBreaks text) }
  let event ← fields.foldlM readEventField plain
  .ok
    { event with
      tags := event.tags.extend rules.defaultTags
      hostname := if rules.ignoreHost then event.hostname else event.hostname.or source
      source }

def eventMark : List Char := ['_', 'e', '\x7b']
def checkMark : List Char := ['_', 's', 'c', '|']

def read (rules : Rules) (source : Option String) (line : List Char) : Except Fault Record :=
  match Text.dropStart? eventMark line with
  | some header =>
    match readEvent rules source header with
    | .ok event => .ok (.event event)
    | .error fault => .error (.invalidEvent fault)
  | none =>
    if checkMark.isPrefixOf line then .error .serviceCheck
    else (readMetric rules source line).map .metric

def lineBreak : UInt8 := 10

def dropReturn (line : List Char) : List Char :=
  if line.getLast? = some '\r' then line.dropLast else line

-- The result for one line of bytes; an empty line has none.
def readBytes (rules : Rules) (source : Option String) (line : List UInt8) :
    Option (Except Fault Record) :=
  match Text.decode? line with
  | none => some (.error .invalidUtf8)
  | some text =>
    let text := dropReturn text
    if text.isEmpty then none else some (read rules source text)

def readAll (rules : Rules) (source : Option String) (data : List UInt8) :
    List (Except Fault Record) :=
  (Text.pieces lineBreak data).filterMap (readBytes rules source)

end StatsDaemon.Line
