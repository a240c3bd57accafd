import StatsDaemon.Event.Json
import StatsDaemon.Key
import StatsDaemon.Proofs.Document
import StatsDaemon.Proofs.Tags
import StatsDaemon.Proofs.Text.Order

namespace StatsDaemon

namespace Tags

-- What is done to a tag set: it is made anew from a list or from its JSON form, or gets more tags.
inductive Operation where
  | collect (items : List String)
  | read (items : List String)
  | insert (tag : String)
  | extend (more : List String)

def perform? (tags : Tags) : Operation → Option Tags
  | .collect items => some (ofList items)
  | .read items => ofJson? (.strings items)
  | .insert tag => some (tags.insert tag)
  | .extend more => some (tags.extend more)

def build? (operations : List Operation) : Option Tags :=
  operations.foldlM perform? empty

def supply (supplied : List String) : Operation → List String
  | .collect items => items
  | .read items => items
  | .insert tag => supplied ++ [tag]
  | .extend more => supplied ++ more

-- The tags that were supplied since the set was last made anew, in the order in which they came.
def supplied (operations : List Operation) : List String :=
  operations.foldl supply []

def Consists (tags : Tags) (items : List String) : Prop :=
  ∀ tag, tag ∈ tags.items ↔ tag ∈ items

theorem consists_ofList (items : List String) : (ofList items).Consists items :=
  fun _ => mem_extend.trans (or_iff_left List.not_mem_nil)

theorem ofJson?_strings (items : List String) : ofJson? (.strings items) = some (ofList items) := by
  have htexts : Document.texts? (Json.strings items) = some items :=
    Document.stands_json.texts items
  rw [ofJson?, htexts, Option.map_some]

namespace Consists

variable {tags others : Tags} {items more : List String}

theorem perform (h : tags.Consists items) (o : Operation) :
    ∃ after, tags.perform? o = some after ∧ after.Consists (supply items o) := by
  cases o with
  | collect items => exact ⟨_, rfl, consists_ofList items⟩
  | read items => exact ⟨_, ofJson?_strings items, consists_ofList items⟩
  | insert tag =>
    refine ⟨_, rfl, fun other => ?_⟩
    rw [mem_insert, h other, supply, List.mem_append, List.mem_singleton]
    exact Or.comm
  | extend more =>
    refine ⟨_, rfl, fun other => ?_⟩
    rw [mem_extend, h other, supply, List.mem_append]
    exact Or.comm

theorem performAll (h : tags.Consists items) (operations : List Operation) :
    ∃ after, operations.foldlM perform? tags = some after ∧
      after.Consists (operations.foldl supply items) := by
  induction operations generalizing tags items with
  | nil => exact ⟨tags, rfl, h⟩
  | cons o rest ih =>
    obtain ⟨next, hnext, hconsists⟩ := h.perform o
    obtain ⟨after, hafter, hrest⟩ := ih hconsists
    refine ⟨after, ?_, hrest⟩
    rw [List.foldlM_cons, hnext, Option.bind_eq_bind, Option.bind_some, hafter]

theorem unique (h : tags.Consists items) (hothers : others.Consists more)
    (hsame : ∀ tag, tag ∈ items ↔ tag ∈ more) : tags = others :=
  eq_of_mem_iff fun tag => (h tag).trans ((hsame tag).trans (hothers tag).symm)

end Consists

theorem build?_eq_some (operations : List Operation) :
    ∃ tags, build? operations = some tags ∧ tags.Consists (supplied operations) :=
  Consists.performAll (fun _ => Iff.rfl) operations

theorem bytes_increasing (tags : Tags) :
    tags.items.Pairwise fun tag other => tag.toUTF8.toList < other.toUTF8.toList :=
  tags.increasing.imp Text.bytes_lt_iff.mpr

-- Searching for the place of a tag gives what sorting everything anew gives.
theorem insert_eq_extend (tags : Tags) (tag : String) : tags.insert tag = tags.extend [tag] :=
  eq_of_mem_iff fun _ => by rw [mem_insert, mem_extend, List.mem_singleton]

end Tags

namespace Key

theorem of_inj {kind kind' : Kind} {name name' : String} {tags tags' : Tags} :
    Key.of kind name tags = Key.of kind' name' tags' ↔
      kind = kind' ∧ name = name' ∧ tags = tags' := by
  constructor
  · intro h
    injection h with hkind hname htags
    exact ⟨hkind, hname, htags⟩
  · rintro ⟨rfl, rfl, rfl⟩
    rfl

end Key

-- What a tag set is depends on nothing but the tags that were supplied, and what an identity is on
-- nothing but kind, name and tags.
theorem identities_canonical :
    (∀ operations, ∃ tags, Tags.build? operations = some tags ∧
      (tags.items.Pairwise fun tag other => tag.toUTF8.toList < other.toUTF8.toList) ∧
      ∀ tag, tag ∈ tags.items ↔ tag ∈ Tags.supplied operations) ∧
    (∀ tags tag, Tags.insert tags tag = tags.extend [tag]) ∧
    (∀ operations others,
      (∀ tag, tag ∈ Tags.supplied operations ↔ tag ∈ Tags.supplied others) →
        Tags.build? operations = Tags.build? others) ∧
    (∀ kind name tags kind' name' tags',
      (Key.of kind name tags).same (Key.of kind' name' tags') = true ↔
        kind = kind' ∧ name = name' ∧ ∀ tag, tag ∈ tags.items ↔ tag ∈ tags'.items) ∧
    (∀ k l, Key.same k l = true → k.hash = l.hash ∧ ∀ shards, k.shard shards = l.shard shards) ∧
    ∀ k shards, Key.shard k shards < max 1 shards := by
  refine ⟨fun operations => ?_, Tags.insert_eq_extend, fun operations others hsame => ?_,
    fun kind name tags kind' name' tags' => ?_, fun k l hsame => ?_, fun k shards => ?_⟩
  · obtain ⟨tags, hbuild, hconsists⟩ := Tags.build?_eq_some operations
    exact ⟨tags, hbuild, tags.bytes_increasing, hconsists⟩
  · obtain ⟨tags, hbuild, hconsists⟩ := Tags.build?_eq_some operations
    obtain ⟨tags', hbuild', hconsists'⟩ := Tags.build?_eq_some others
    rw [hbuild, hbuild', hconsists.unique hconsists' hsame]
  · have hmembers : tags = tags' ↔ ∀ tag, tag ∈ tags.items ↔ tag ∈ tags'.items :=
      ⟨fun h _ => h ▸ Iff.rfl, Tags.eq_of_mem_iff⟩
    rw [Key.same_iff, Key.of_inj, hmembers]
  · obtain rfl := Key.same_iff.mp hsame
    exact ⟨rfl, fun _ => rfl⟩
  · exact max_comm shards 1 ▸ k.shard_lt shards

theorem scattered_tags_built :
    let operations : List Tags.Operation := [.collect ["b", "a", "b"]]
    let others : List Tags.Operation := [.collect ["c"], .read ["a"], .insert "b", .extend ["a"]]
    (∀ tag, tag ∈ Tags.supplied operations ↔ tag ∈ Tags.supplied others) ∧
      Tags.build? operations = Tags.build? others := by
  intro operations others
  have hsame : ∀ tag, tag ∈ Tags.supplied operations ↔ tag ∈ Tags.supplied others := by
    intro tag
    simp only [operations, others, Tags.supplied, List.foldl_cons, List.foldl_nil, Tags.supply,
      List.mem_append, List.mem_cons, List.not_mem_nil, or_false]
    tauto
  exact ⟨hsame, identities_canonical.2.2.1 operations others hsame⟩

end StatsDaemon
