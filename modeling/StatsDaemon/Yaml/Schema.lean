import StatsDaemon.Decimal.Reading
import StatsDaemon.Document
import StatsDaemon.Net.Address
import StatsDaemon.Yaml.Node

namespace StatsDaemon.Yaml

def isNull (text : String) : Bool :=
  text = "null" || text = "Null" || text = "NULL" || text = "~"

def readBool (text : String) : Option Bool :=
  if text = "true" ∨ text = "True" ∨ text = "TRUE" then some true
  else if text = "false" ∨ text = "False" ∨ text = "FALSE" then some false
  else none

def digits? (radix : Nat) (text : List Char) : Option Nat :=
  if text.isEmpty then none
  else text.foldlM (fun n c => (Net.digitValue radix c).map (radix * n + ·)) 0

def dropSign : List Char → List Char
  | '+' :: rest | '-' :: rest => rest
  | text => text

-- Digits that are no number, because the first of them is a zero.
def isZeroPadded (text : List Char) : Bool :=
  match dropSign text with
  | '0' :: c :: rest => (c :: rest).all Char.isDigit
  | _ => false

def magnitude? (text digits : List Char) : Option Nat :=
  let radix? : Option Nat := match digits with
    | '0' :: 'x' :: rest => digits? 16 rest
    | '0' :: 'o' :: rest => digits? 8 rest
    | '0' :: 'b' :: rest => digits? 2 rest
    | _ => none
  radix?.or (if isZeroPadded text then none else digits? 10 digits)

def natural? (text : List Char) : Option Nat :=
  match text with
  | '+' :: digits => magnitude? text digits
  | _ => magnitude? text text

def integer? (text : List Char) : Option Int :=
  match text with
  | '-' :: digits => (magnitude? text digits).map fun n => -(n : Int)
  | _ => (natural? text).map Int.ofNat

def dropPlus : List Char → List Char
  | '+' :: rest => rest
  | text => text

def real? (text : List Char) : Option Binary64 :=
  let word := String.ofList (dropPlus text)
  let whole := String.ofList text
  if word = ".inf" ∨ word = ".Inf" ∨ word = ".INF" then some .infinity
  else if whole = "-.inf" ∨ whole = "-.Inf" ∨ whole = "-.INF" then some (Binary64.infinity.withSign true)
  else if whole = ".nan" ∨ whole = ".NaN" ∨ whole = ".NAN" then some .nan
  else match text with
    | '+' :: '+' :: _ | '+' :: '-' :: _ => none
    | _ => (Decimal.read? text).filter Binary64.isFinite

-- The value of a plain scalar; a whole number must fit into a word.
def plainValue? (text : String) : Option Json :=
  if text.isEmpty || isNull text then some .null
  else match readBool text, integer? text.toList with
    | some b, _ => some (.bool b)
    | none, some i => if Json.minInteger ≤ i ∧ i ≤ Json.maxNatural then some (.int i) else none
    | none, none =>
      match (if isZeroPadded text.toList then none else real? text.toList) with
      | some x => some (.real x)
      | none => some (.str text)

def coreTag (name : String) : Option String :=
  some ("tag:yaml.org,2002:" ++ name)

def scalarValue? (tag : Option String) (isPlain : Bool) (text : String) : Option Json :=
  if tag.any (·.startsWith "!") then none
  else if tag = coreTag "bool" then (readBool text).map .bool
  else if tag = coreTag "int" then (integer? text.toList).map .int
  else if tag = coreTag "float" then (real? text.toList).map .real
  else if tag = coreTag "null" then if isNull text then some .null else none
  else if tag.isNone && isPlain then plainValue? text
  else some (.str text)

namespace Node

mutual

def value? : Node → Option Json
  | .scalar tag isPlain text => scalarValue? tag isPlain text
  | .sequence tag items =>
    if tag.any (·.startsWith "!") then none else (itemValues? items).map .arr
  | .mapping tag entries =>
    if tag.any (·.startsWith "!") then none else (entryValues? entries).map .obj
  | .enclosing => none

def itemValues? : List Node → Option (List Json)
  | [] => some []
  | item :: rest => do
    some ((← value? item) :: (← itemValues? rest))

def entryValues? : List (Node × Node) → Option (List (String × Json))
  | [] => some []
  | (key, value) :: rest => do
    let .str key ← value? key | none
    some ((key, ← value? value) :: (← entryValues? rest))

end

def text? : Node → Option String
  | .scalar _ _ text => some text
  | _ => none

def plainText? : Node → Option String
  | .scalar _ true text => some text
  | _ => none

-- The name of an alternative, which may also be given as a tag of nothing.
def choice? : Node → Option String
  | .scalar (some tag) isPlain text =>
    if tag.startsWith "!" then
      if isPlain && (text.isEmpty || isNull text) then
        some (if tag.length = 1 then tag else String.ofList (tag.toList.drop 1))
      else none
    else some text
  | .scalar none _ text => some text
  | _ => none

-- Nothing at all stands for an empty sequence or mapping.
def isVacant : Node → Bool
  | .scalar _ isPlain text => isPlain && text.isEmpty
  | _ => false

end Node

instance : Document Node where
  text? := Node.text?
  natural? n := do
    let m ← natural? (← n.plainText?).toList
    if m ≤ 0xffffffffffffffff then some m else none
  integer? n := do
    let i ← integer? (← n.plainText?).toList
    if -0x8000000000000000 ≤ i ∧ i < 0x8000000000000000 then some i else none
  real? n := n.plainText?.bind fun text => real? text.toList
  flag? n := n.plainText?.bind readBool
  choice? := Node.choice?
  items?
    | .sequence _ items => some items
    | n => if n.isVacant then some [] else none
  fields?
    | .mapping _ entries => entries.mapM fun (key, value) => key.text?.map (·, value)
    | n => if n.isVacant then some [] else none
  positions? _ := none
  isAbsent n := n.plainText?.any fun text => text.isEmpty || isNull text
  content? := Node.value?

end StatsDaemon.Yaml
