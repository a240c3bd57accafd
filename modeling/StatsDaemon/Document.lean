import StatsDaemon.Json.Value

namespace StatsDaemon

class Document (δ : Type) where
  text? : δ → Option String
  natural? : δ → Option Nat
  integer? : δ → Option Int
  real? : δ → Option Binary64
  flag? : δ → Option Bool
  -- The name of one of a fixed set of alternatives.
  choice? : δ → Option String
  items? : δ → Option (List δ)
  fields? : δ → Option (List (String × δ))
  -- The items of a record that gives its fields by position instead of by name.
  positions? : δ → Option (List δ)
  isAbsent : δ → Bool
  -- The value that the tree stands for by itself, whatever is asked for.
  content? : δ → Option Json

namespace Document

variable {δ : Type} [Document δ] {β : Type}

-- The values of a record's fields, in the order of their names; `none` where one is missing.
def record? (names : List String) (d : δ) : Option (List (Option δ)) :=
  match positions? d with
  | some items =>
    if names.length < items.length then none
    else some (items.map some ++ List.replicate (names.length - items.length) none)
  | none => do
    let fields ← fields? d
    -- A field may be given once; what is not a field is passed over.
    if names.any fun name => 1 < (fields.filter (·.1 == name)).length then none
    else some (names.map fun name => (fields.find? (·.1 == name)).map Prod.snd)

def orElse (default : β) (read : δ → Option β) : Option δ → Option β
  | none => some default
  | some d => read d

def required (read : δ → Option β) : Option δ → Option β
  | none => none
  | some d => read d

def optional (read : δ → Option β) : Option δ → Option (Option β)
  | none => some none
  | some d => if isAbsent d then some none else (read d).map some

def list? (read : δ → Option β) (d : δ) : Option (List β) := do
  (← items? d).mapM read

def naturalUpTo? (limit : Nat) (d : δ) : Option Nat := do
  let n ← natural? d
  if n ≤ limit then some n else none

def choose? (ofName? : String → Option β) (d : δ) : Option β :=
  (choice? d).bind ofName?

def texts? (d : δ) : Option (List String) :=
  list? text? d

-- A section that says by its `type` what it is: this name, and the section without it. By
-- position the type comes first.
def typed? (d : δ) : Option (String × Json) := do
  match ← content? d with
  | .obj fields =>
    let [(_, type)] := (← fields? d).filter (·.1 == "type") | none
    some (← text? type, .obj (fields.filter (·.1 != "type")))
  | .arr (_ :: rest) =>
    let type :: _ ← items? d | none
    some (← text? type, .arr rest)
  | _ => none

end Document

-- A JSON value stands for what its own type says; a list may give a record by position.
instance : Document Json where
  text?
    | .str s => some s
    | _ => none
  natural?
    | .int i => if 0 ≤ i then some i.toNat else none
    | _ => none
  integer?
    | .int i => if i < 0x8000000000000000 then some i else none
    | _ => none
  real?
    | .int i => some ((Binary64.ofNat i.natAbs).withSign (i < 0))
    | .real x => some x
    | _ => none
  flag?
    | .bool b => some b
    | _ => none
  choice?
    | .str s => some s
    | .obj [(name, .null)] => some name
    | _ => none
  items?
    | .arr items => some items
    | _ => none
  fields?
    | .obj fields => some fields
    | _ => none
  positions?
    | .arr items => some items
    | _ => none
  isAbsent
    | .null => true
    | _ => false
  content? := some

end StatsDaemon
