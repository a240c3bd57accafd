import StatsDaemon.Config.Internal
import StatsDaemon.Proofs.Identity

namespace StatsDaemon.Config.Internal

def written (tag : String) : String :=
  Tags.keyOf tag ++ ":" ++ Tags.valueOf tag

-- The tags that are not followed by one with the same key.
def latest : List String → List String
  | [] => []
  | tag :: rest =>
    if rest.any fun other => Tags.keyOf other = Tags.keyOf tag then latest rest
    else tag :: latest rest

-- Tags that have all a value and are told apart by their keys.
structure Keyed (tags : List String) : Prop where
  valued : ∀ tag ∈ tags, ':' ∈ tag.toList
  apart : ∀ tag ∈ tags, ∀ other ∈ tags, Tags.keyOf tag = Tags.keyOf other → tag = other

theorem tag_cases (tag : String) :
    (':' ∉ tag.toList ∧ Tags.keyOf tag = tag ∧ Tags.valueOf tag = "") ∨
      ∃ key value, tag.toList = key ++ ':' :: value ∧ ':' ∉ key ∧
        Tags.keyOf tag = String.ofList key ∧ Tags.valueOf tag = String.ofList value := by
  rcases Text.cut_cases ':' tag.toList with ⟨hbare, hcut⟩ | ⟨key, value, htag, hkey, hcut⟩
  · exact .inl ⟨hbare, by rw [Tags.keyOf, hcut], by rw [Tags.valueOf, hcut]⟩
  · exact .inr ⟨key, value, htag, hkey, by rw [Tags.keyOf, hcut], by rw [Tags.valueOf, hcut]⟩

theorem written_of_valued {tag : String} (h : ':' ∈ tag.toList) : written tag = tag := by
  rcases tag_cases tag with ⟨hbare, -⟩ | ⟨key, value, htag, -, hkey, hvalue⟩
  · exact absurd h hbare
  · apply String.toList_injective
    rw [written, hkey, hvalue, htag]
    simp

theorem written_of_bare {tag : String} (h : ':' ∉ tag.toList) : written tag = tag ++ ":" := by
  rcases tag_cases tag with ⟨-, hkey, hvalue⟩ | ⟨key, value, htag, -⟩
  · rw [written, hkey, hvalue, String.append_empty]
  · rw [htag] at h
    exact absurd (List.mem_append_right key List.mem_cons_self) h

theorem valued_written (tag : String) : ':' ∈ (written tag).toList := by
  simp [written]

theorem keyOf_written (tag : String) : Tags.keyOf (written tag) = Tags.keyOf tag := by
  have hkey : ':' ∉ (Tags.keyOf tag).toList := by
    rcases tag_cases tag with ⟨hbare, hkey, -⟩ | ⟨key, value, -, hcolon, hkey, -⟩
    · rwa [hkey]
    · rwa [hkey, String.toList_ofList]
  have htext : (written tag).toList = (Tags.keyOf tag).toList ++ ':' :: (Tags.valueOf tag).toList := by
    simp [written]
  rw [Tags.keyOf, htext, Text.cut_append hkey]
  exact String.ofList_toList

theorem keyOf_host (host : String) : Tags.keyOf ("host:" ++ host) = "host" := by
  have htext : ("host:" ++ host).toList = "host".toList ++ ':' :: host.toList := by
    simp
  rw [Tags.keyOf, htext, Text.cut_append (by decide)]
  rfl

theorem latest_cases (first : String) (rest : List String) :
    (∃ later ∈ rest, Tags.keyOf later = Tags.keyOf first ∧ latest (first :: rest) = latest rest) ∨
      ((∀ tag ∈ rest, Tags.keyOf tag ≠ Tags.keyOf first) ∧
        latest (first :: rest) = first :: latest rest) := by
  rw [latest]
  split
  · rename_i hany
    obtain ⟨later, hlater, hkey⟩ := by simpa using hany
    exact .inl ⟨later, hlater, hkey, rfl⟩
  · rename_i hany
    exact .inr ⟨by simpa using hany, rfl⟩

theorem latest_sublist (tags : List String) : (latest tags).Sublist tags := by
  induction tags with
  | nil => exact List.Sublist.refl []
  | cons first rest ih =>
    rcases latest_cases first rest with ⟨-, -, -, heq⟩ | ⟨-, heq⟩
    · rw [heq]
      exact ih.cons first
    · rw [heq]
      exact ih.cons_cons first

theorem exists_latest {tag : String} {tags : List String} (h : tag ∈ tags) :
    ∃ other ∈ latest tags, Tags.keyOf other = Tags.keyOf tag := by
  induction tags generalizing tag with
  | nil => cases h
  | cons first rest ih =>
    rcases latest_cases first rest with ⟨later, hlater, hkey, heq⟩ | ⟨-, heq⟩
    · rw [heq]
      rcases List.mem_cons.mp h with rfl | hmem
      · obtain ⟨other, hother, hsame⟩ := ih hlater
        exact ⟨other, hother, hsame.trans hkey⟩
      · exact ih hmem
    · rw [heq]
      rcases List.mem_cons.mp h with rfl | hmem
      · exact ⟨tag, List.mem_cons_self, rfl⟩
      · obtain ⟨other, hother, hsame⟩ := ih hmem
        exact ⟨other, List.mem_cons_of_mem _ hother, hsame⟩

theorem latest_apart (tags : List String) : ∀ tag ∈ latest tags, ∀ other ∈ latest tags,
    Tags.keyOf tag = Tags.keyOf other → tag = other := by
  induction tags with
  | nil => simp [latest]
  | cons first rest ih =>
    rcases latest_cases first rest with ⟨-, -, -, heq⟩ | ⟨hlast, heq⟩
    · rwa [heq]
    · rw [heq]
      have hfirst : ∀ tag ∈ latest rest, Tags.keyOf tag ≠ Tags.keyOf first := fun tag htag =>
        hlast tag ((latest_sublist rest).subset htag)
      intro tag htag other hother hkey
      rcases List.mem_cons.mp htag with rfl | htag' <;>
        rcases List.mem_cons.mp hother with rfl | hother'
      · rfl
      · exact absurd hkey.symm (hfirst other hother')
      · exact absurd hkey (hfirst tag htag')
      · exact ih tag htag' other hother' hkey

theorem ofList_latest_iff {tags : List String} {host : String}
    (hkeys : ∀ tag ∈ tags, Tags.keyOf tag ≠ "host") :
    Tags.ofList (("host:" ++ host) :: (latest tags).map written) =
      Tags.ofList (("host:" ++ host) :: tags) ↔ Keyed tags := by
  constructor
  · intro heq
    have hwritten : ∀ tag ∈ tags, ∃ other ∈ latest tags, written other = tag := by
      intro tag htag
      have hmem : tag ∈ (Tags.ofList (("host:" ++ host) :: (latest tags).map written)).items := by
        rw [heq, Tags.consists_ofList]
        exact List.mem_cons_of_mem _ htag
      rw [Tags.consists_ofList, List.mem_cons] at hmem
      rcases hmem with rfl | hmem
      · exact absurd (keyOf_host host) (hkeys _ htag)
      · exact List.mem_map.mp hmem
    refine ⟨fun tag htag => ?_, fun tag htag other hother hkey => ?_⟩
    · obtain ⟨source, -, rfl⟩ := hwritten tag htag
      exact valued_written source
    · obtain ⟨source, hsource, rfl⟩ := hwritten tag htag
      obtain ⟨second, hsecond, rfl⟩ := hwritten other hother
      rw [keyOf_written, keyOf_written] at hkey
      rw [latest_apart tags source hsource second hsecond hkey]
  · intro h
    refine Tags.eq_of_mem_iff fun text => ?_
    rw [Tags.consists_ofList, Tags.consists_ofList, List.mem_cons, List.mem_cons, List.mem_map]
    refine or_congr_right ⟨?_, fun hmem => ?_⟩
    · rintro ⟨tag, htag, rfl⟩
      have hmem := (latest_sublist tags).subset htag
      rwa [written_of_valued (h.valued tag hmem)]
    · obtain ⟨tag, htag, hkey⟩ := exists_latest hmem
      obtain rfl := h.apart tag ((latest_sublist tags).subset htag) text hmem hkey
      exact ⟨tag, htag, written_of_valued (h.valued tag hmem)⟩

def Increasing (table : List (String × String)) : Prop :=
  table.Pairwise fun first second => first.1 < second.1

variable {table : List (String × String)}

theorem mem_insertTag (h : Increasing table) {key value : String} {entry : String × String} :
    entry ∈ insertTag key value table ↔
      entry = (key, value) ∨ (entry.1 ≠ key ∧ entry ∈ table) := by
  induction table with
  | nil => simp [insertTag]
  | cons first rest ih =>
    obtain ⟨other, known⟩ := first
    obtain ⟨hfirst, hrest⟩ := List.pairwise_cons.mp h
    -- An entry behind one with a greater key has another key, too.
    have hbehind : key ≤ other → ∀ entry ∈ rest, entry.1 ≠ key := fun hle entry hmem heq =>
      absurd (hfirst entry hmem) (heq ▸ hle).not_gt
    rw [insertTag]
    split
    · rename_i hlt
      have hne : ∀ entry ∈ (other, known) :: rest, entry.1 ≠ key := by
        rw [List.forall_mem_cons]
        exact ⟨hlt.ne', hbehind hlt.le⟩
      rw [List.mem_cons]
      exact or_congr_right ⟨fun hmem => ⟨hne entry hmem, hmem⟩, And.right⟩
    · split
      · rename_i heq
        subst heq
        rw [List.mem_cons, List.mem_cons]
        refine or_congr_right ⟨fun hmem => ⟨hbehind le_rfl entry hmem, .inr hmem⟩, ?_⟩
        rintro ⟨hne, rfl | hmem⟩
        · exact absurd rfl hne
        · exact hmem
      · rename_i hne
        rw [List.mem_cons, ih hrest, List.mem_cons]
        constructor
        · rintro (rfl | heq | ⟨hkey, hmem⟩)
          · exact .inr ⟨Ne.symm hne, .inl rfl⟩
          · exact .inl heq
          · exact .inr ⟨hkey, .inr hmem⟩
        · rintro (heq | ⟨hkey, heq | hmem⟩)
          · exact .inr (.inl heq)
          · exact .inl heq
          · exact .inr (.inr ⟨hkey, hmem⟩)

theorem Increasing.insertTag (h : Increasing table) (key value : String) :
    Increasing (insertTag key value table) := by
  induction table with
  | nil => exact List.pairwise_singleton _ _
  | cons first rest ih =>
    obtain ⟨other, known⟩ := first
    obtain ⟨hfirst, hrest⟩ := List.pairwise_cons.mp h
    rw [Internal.insertTag]
    split
    · rename_i hlt
      refine List.pairwise_cons.mpr ⟨?_, h⟩
      rw [List.forall_mem_cons]
      exact ⟨hlt, fun entry hmem => hlt.trans (hfirst entry hmem)⟩
    · split
      · rename_i heq
        exact List.pairwise_cons.mpr ⟨fun entry hmem => heq ▸ hfirst entry hmem, hrest⟩
      · rename_i hlt hne
        refine List.pairwise_cons.mpr ⟨fun entry hmem => ?_, ih hrest⟩
        rcases (mem_insertTag hrest).mp hmem with rfl | ⟨-, hmem⟩
        · exact lt_of_le_of_ne (not_lt.mp hlt) (Ne.symm hne)
        · exact hfirst entry hmem

def enter (table : List (String × String)) (tag : String) : List (String × String) :=
  insertTag (Tags.keyOf tag) (Tags.valueOf tag) table

theorem tagTable_eq (i : Internal) : i.tagTable = i.tags.foldl enter [] := by
  rw [tagTable]
  congr 1
  funext table tag
  rw [enter, Tags.keyOf, Tags.valueOf]
  cases Text.cut ':' tag.toList <;> rfl

theorem Increasing.enterAll (h : Increasing table) (tags : List String) :
    Increasing (tags.foldl enter table) := by
  induction tags generalizing table with
  | nil => exact h
  | cons first rest ih => exact ih (h.insertTag _ _)

-- After a list of tags a table holds the latest of them, and what it held under other keys.
theorem mem_enterAll (h : Increasing table) (tags : List String) {entry : String × String} :
    entry ∈ tags.foldl enter table ↔
      (∃ tag ∈ latest tags, (Tags.keyOf tag, Tags.valueOf tag) = entry) ∨
        ((∀ tag ∈ tags, Tags.keyOf tag ≠ entry.1) ∧ entry ∈ table) := by
  induction tags generalizing table with
  | nil => simp [latest]
  | cons first rest ih =>
    have hfirst : Increasing (enter table first) := h.insertTag _ _
    rw [List.foldl_cons, ih hfirst, enter, mem_insertTag h, List.forall_mem_cons]
    rcases latest_cases first rest with ⟨later, hlater, hkey, heq⟩ | ⟨hlast, heq⟩
    · rw [heq]
      constructor
      · rintro (hlatest | ⟨hrest, rfl | ⟨hne, htable⟩⟩)
        · exact .inl hlatest
        · exact absurd hkey (hrest later hlater)
        · exact .inr ⟨⟨Ne.symm hne, hrest⟩, htable⟩
      · rintro (hlatest | ⟨⟨hne, hrest⟩, htable⟩)
        · exact .inl hlatest
        · exact .inr ⟨hrest, .inr ⟨Ne.symm hne, htable⟩⟩
    · simp only [heq, List.mem_cons, exists_eq_or_imp]
      constructor
      · rintro (hlatest | ⟨hrest, heq | ⟨hne, htable⟩⟩)
        · exact .inl (.inr hlatest)
        · exact .inl (.inl heq.symm)
        · exact .inr ⟨⟨Ne.symm hne, hrest⟩, htable⟩
      · rintro ((rfl | hlatest) | ⟨⟨hne, hrest⟩, htable⟩)
        · exact .inr ⟨hlast, .inl rfl⟩
        · exact .inl hlatest
        · exact .inr ⟨hrest, .inr ⟨Ne.symm hne, htable⟩⟩

theorem mem_defaultTags {i : Internal} {machine : Option String} {host : String}
    (hhost : i.hostname.or machine = some host) (hkeys : ∀ tag ∈ i.tags, Tags.keyOf tag ≠ "host")
    {entry : String × String} : entry ∈ (i.client machine).defaultTags ↔
      entry = ("host", host) ∨ ∃ tag ∈ latest i.tags, (Tags.keyOf tag, Tags.valueOf tag) = entry := by
  have htable : Increasing i.tagTable := by
    rw [tagTable_eq]
    exact Increasing.enterAll .nil i.tags
  have hentries : (i.client machine).defaultTags = insertTag "host" host i.tagTable := by
    rw [client, hhost]
  rw [hentries, mem_insertTag htable, tagTable_eq, mem_enterAll .nil]
  apply or_congr_right
  simp only [List.not_mem_nil, and_false, or_false, and_iff_right_iff_imp]
  rintro ⟨tag, htag, rfl⟩
  exact hkeys tag ((latest_sublist i.tags).subset htag)

end StatsDaemon.Config.Internal
