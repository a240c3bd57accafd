import StatsDaemon.Text.Pieces
import StatsDaemon.Text.Sorted

namespace StatsDaemon

structure Tags where
  items : List String
  increasing : items.Pairwise (· < ·)
  deriving DecidableEq

namespace Tags

def empty : Tags := ⟨[], List.Pairwise.nil⟩

instance : Inhabited Tags := ⟨empty⟩

def insert (tags : Tags) (tag : String) : Tags :=
  let found := Text.search tag tags.items
  if h : found.2 = false then
    ⟨tags.items.take found.1 ++ tag :: tags.items.drop found.1,
      (Text.belongs_of_search tags.increasing h).increasing tags.increasing⟩
  else tags

def extend (tags : Tags) (more : List String) : Tags :=
  ⟨Text.dedup (Text.sort (tags.items ++ more)), Text.dedup_increasing (Text.pairwise_sort _)⟩

def ofList (items : List String) : Tags :=
  empty.extend items

def keyOf (tag : String) : String :=
  match Text.cut ':' tag.toList with
  | some (key, _) => String.ofList key
  | none => tag

-- The part of a tag after its first colon; a bare tag has the empty value.
def valueOf (tag : String) : String :=
  match Text.cut ':' tag.toList with
  | some (_, value) => String.ofList value
  | none => ""

def hasKey (tags : Tags) (key : String) : Bool :=
  tags.items.any fun tag => keyOf tag == key

def get? (tags : Tags) (key : String) : Option String :=
  (tags.items.find? fun tag => keyOf tag == key).map valueOf

def text (tags : Tags) : String :=
  ",".intercalate tags.items

def lt (tags other : Tags) : Bool :=
  tags.items < other.items

def compare (tags other : Tags) : Ordering :=
  if tags.lt other then .lt else if other.lt tags then .gt else .eq

theorem mem_insert {tags : Tags} {tag other : String} :
    other ∈ (tags.insert tag).items ↔ other = tag ∨ other ∈ tags.items := by
  simp only [insert]
  split
  · conv => rhs; rw [← List.take_append_drop (Text.search tag tags.items).1 tags.items]
    simp only [List.mem_append, List.mem_cons]
    exact or_left_comm
  · rename_i h
    have hmem := Text.mem_of_search (Bool.not_eq_false _ ▸ h)
    exact ⟨.inr, fun h => h.elim (fun heq => heq ▸ hmem) id⟩

theorem mem_extend {tags : Tags} {more : List String} {tag : String} :
    tag ∈ (tags.extend more).items ↔ tag ∈ more ∨ tag ∈ tags.items := by
  rw [extend, Text.mem_dedup, Text.mem_sort, List.mem_append]
  exact Or.comm

end Tags

end StatsDaemon
