import StatsDaemon.Yaml.Token.Lexer

namespace StatsDaemon.Yaml

inductive Node where
  | scalar (tag : Option String) (isPlain : Bool) (text : String)
  | sequence (tag : Option String) (items : List Node)
  | mapping (tag : Option String) (entries : List (Node × Node))
  -- An alias of a node that it is itself a part of.
  | enclosing
  deriving Inhabited

structure Reading where
  tokens : List Token
  -- Anchors, the last one first; one that is still open has no node yet.
  anchors : List (String × Option Node) := []
  -- Handles of tags and what they are short for.
  handles : List (String × String) := [("!", "!"), ("!!", "tag:yaml.org,2002:")]

namespace Reading

def peek? (r : Reading) : Option Token :=
  r.tokens.head?

def skip (r : Reading) : Reading :=
  { r with tokens := r.tokens.tail }

end Reading

namespace Node

def empty : Node :=
  .scalar none true ""

-- Anchor and tag before a node, each at most once and in either order.
structure Properties where
  anchor : Option String := none
  tag : Option (String × String) := none

def Properties.read (r : Reading) : Properties × Reading :=
  match r.tokens with
  | .anchor name :: .tag handle suffix :: rest =>
    ({ anchor := some name, tag := some (handle, suffix) }, { r with tokens := rest })
  | .tag handle suffix :: .anchor name :: rest =>
    ({ anchor := some name, tag := some (handle, suffix) }, { r with tokens := rest })
  | .anchor name :: rest => ({ anchor := some name }, { r with tokens := rest })
  | .tag handle suffix :: rest => ({ tag := some (handle, suffix) }, { r with tokens := rest })
  | _ => ({}, r)

def resolveTag (r : Reading) : Option (String × String) → Option (Option String)
  | none => some none
  | some (handle, suffix) =>
    if handle.isEmpty then some (some suffix)
    else (r.handles.lookup handle).map fun start => some (start ++ suffix)

def openAnchor (r : Reading) (anchor : Option String) : Reading :=
  match anchor with
  | some name => { r with anchors := (name, none) :: r.anchors }
  | none => r

def closeAnchor (r : Reading) (anchor : Option String) (n : Node) : Reading :=
  match anchor with
  | some name => { r with anchors := r.anchors.map fun entry =>
      if entry.1 = name ∧ entry.2.isNone then (name, some n) else entry }
  | none => r

mutual

-- A node. Only in a block can one be a block itself, and only in a mapping can a sequence be
-- without an indentation of its own.
def read (fuel : Nat) (block unindented : Bool) (r : Reading) : Option (Node × Reading) :=
  match fuel with
  | 0 => none
  | fuel + 1 =>
    match r.peek? with
    | some (.alias name) => (r.anchors.lookup name).map fun n => (n.getD .enclosing, r.skip)
    | _ => do
      let (properties, r) := Properties.read r
      let tag ← resolveTag r properties.tag
      let r := openAnchor r properties.anchor
      let finish (n : Node) (r : Reading) : Option (Node × Reading) :=
        some (n, closeAnchor r properties.anchor n)
      let sequence (result : List Node × Reading) : Option (Node × Reading) :=
        finish (.sequence tag result.1) result.2
      let mapping (result : List (Node × Node) × Reading) : Option (Node × Reading) :=
        finish (.mapping tag result.1) result.2
      match r.peek? with
      | some (.scalar isPlain text) => finish (.scalar tag isPlain text) r.skip
      | some .flowSequenceStart => sequence (← flowItems fuel true r.skip)
      | some .flowMappingStart => mapping (← flowEntries fuel true r.skip)
      | some .blockEntry =>
        if unindented then sequence (← unindentedItems fuel r)
        else if properties.anchor.isSome || tag.isSome then finish (.scalar tag true "") r
        else none
      | some .blockSequenceStart => if block then sequence (← blockItems fuel r.skip) else none
      | some .blockMappingStart => if block then mapping (← blockEntries fuel r.skip) else none
      | _ =>
        if properties.anchor.isSome || tag.isSome then finish (.scalar tag true "") r else none

def readUnless (fuel : Nat) (ends : List Token) (block unindented : Bool) (r : Reading) :
    Option (Node × Reading) :=
  match fuel with
  | 0 => none
  | fuel + 1 =>
    if r.peek?.any ends.contains then some (empty, r) else read fuel block unindented r

def blockItems (fuel : Nat) (r : Reading) : Option (List Node × Reading) :=
  match fuel with
  | 0 => none
  | fuel + 1 =>
    match r.peek? with
    | some .blockEnd => some ([], r.skip)
    | some .blockEntry => do
      let (item, r) ← readUnless fuel [.blockEntry, .blockEnd] true false r.skip
      let (items, r) ← blockItems fuel r
      some (item :: items, r)
    | _ => none

def unindentedItems (fuel : Nat) (r : Reading) : Option (List Node × Reading) :=
  match fuel with
  | 0 => none
  | fuel + 1 =>
    match r.peek? with
    | some .blockEntry => do
      let (item, r) ←
        readUnless fuel [.blockEntry, .key, .value, .blockEnd] true false r.skip
      let (items, r) ← unindentedItems fuel r
      some (item :: items, r)
    | _ => some ([], r)

def blockEntries (fuel : Nat) (r : Reading) : Option (List (Node × Node) × Reading) :=
  match fuel with
  | 0 => none
  | fuel + 1 =>
    match r.peek? with
    | some .blockEnd => some ([], r.skip)
    | some .key => do
      let ends : List Token := [.key, .value, .blockEnd]
      let (key, r) ← readUnless fuel ends true true r.skip
      let (value, r) ←
        if r.peek? = some .value then readUnless fuel ends true true r.skip else some (empty, r)
      let (entries, r) ← blockEntries fuel r
      some ((key, value) :: entries, r)
    | _ => none

-- The items of a flow sequence; a pair among them is a mapping of its own.
def flowItems (fuel : Nat) (first : Bool) (r : Reading) : Option (List Node × Reading) :=
  match fuel with
  | 0 => none
  | fuel + 1 => do
    if r.peek? = some .flowSequenceEnd then some ([], r.skip)
    else
      let r ← if first then some r else if r.peek? = some .flowEntry then some r.skip else none
      match r.peek? with
      | some .flowSequenceEnd => some ([], r.skip)
      | some .key =>
        let (pair, r) ← flowPair fuel r.skip
        let (items, r) ← flowItems fuel false r
        some (.mapping none [pair] :: items, r)
      | _ =>
        let (item, r) ← read fuel false false r
        let (items, r) ← flowItems fuel false r
        some (item :: items, r)

def flowPair (fuel : Nat) (r : Reading) : Option ((Node × Node) × Reading) :=
  match fuel with
  | 0 => none
  | fuel + 1 => do
    let ends : List Token := [.flowEntry, .flowSequenceEnd]
    -- The token in the place of a missing key is passed over.
    let (key, r) ←
      if r.peek?.any (.value :: ends).contains then some (empty, r.skip)
      else read fuel false false r
    let (value, r) ←
      if r.peek? = some .value then readUnless fuel ends false false r.skip else some (empty, r)
    some ((key, value), r)

def flowEntries (fuel : Nat) (first : Bool) (r : Reading) :
    Option (List (Node × Node) × Reading) :=
  match fuel with
  | 0 => none
  | fuel + 1 => do
    if r.peek? = some .flowMappingEnd then some ([], r.skip)
    else
      let r ← if first then some r else if r.peek? = some .flowEntry then some r.skip else none
      let ends : List Token := [.flowEntry, .flowMappingEnd]
      match r.peek? with
      | some .flowMappingEnd => some ([], r.skip)
      | some .key =>
        let (key, r) ← readUnless fuel (.value :: ends) false false r.skip
        let (value, r) ←
          if r.peek? = some .value then readUnless fuel ends false false r.skip
          else some (empty, r)
        let (entries, r) ← flowEntries fuel false r
        some ((key, value) :: entries, r)
      | _ =>
        let (key, r) ← read fuel false false r
        let (entries, r) ← flowEntries fuel false r
        some ((key, empty) :: entries, r)

end

def directives : Bool → List Token → Reading → Option Reading
  | versioned, .version major minor :: rest, r =>
    if versioned || major ≠ 1 || (minor ≠ 1 && minor ≠ 2) then none
    else directives true rest r
  | versioned, .tagHandle handle start :: rest, r =>
    -- A handle may be given once, though it may be one of the usual ones.
    if (r.handles.take (r.handles.length - 2)).any (·.1 = handle) then none
    else directives versioned rest { r with handles := (handle, start) :: r.handles }
  | _, tokens, r => some { r with tokens }

def startsDirective : Option Token → Bool
  | some (.version ..) | some (.tagHandle ..) => true
  | _ => false

-- The document of a text: the only one, up to markers of its end.
def document? (tokens : List Token) : Option Node := do
  let fuel := 4 * tokens.length + 8
  let first := tokens.head?
  if first.isNone then some empty
  else
    let (node, r) ←
      if startsDirective first || first = some .documentStart then do
        let r ← directives false tokens { tokens := [] }
        if r.peek? ≠ some .documentStart then none
        let r := r.skip
        if r.peek?.all fun t =>
            startsDirective (some t) || t = .documentStart || t = .documentEnd then
          some (empty, r)
        else read fuel true false r
      else read fuel true false { tokens }
    if r.tokens.all (· = .documentEnd) then some node else none

def parse? (text : List Char) : Option Node :=
  (Token.ofText? text).bind document?

end Node

end StatsDaemon.Yaml
