import StatsDaemon.Pipeline.Intake
import StatsDaemon.Proofs.Config.TagTable
import StatsDaemon.Proofs.Line.Reports

namespace StatsDaemon

namespace Text

theorem trim_eq_self_iff {text : List Char} : trim text = text ↔
    (∀ a ∈ text.head?, isBlank a = false) ∧ ∀ a ∈ text.getLast?, isBlank a = false := by
  have hparts : trim text = text ↔
      text.dropWhile isBlank = text ∧ text.rdropWhile isBlank = text := by
    constructor
    · intro h
      have hprefix : trim text <+: text.dropWhile isBlank := List.rdropWhile_prefix _ _
      have hsuffix := List.dropWhile_suffix (l := text) isBlank
      have hdrop : text.dropWhile isBlank = text :=
        hsuffix.eq_of_length_le (by simpa only [h] using hprefix.length_le)
      refine ⟨hdrop, ?_⟩
      rwa [trim, hdrop] at h
    · rintro ⟨hdrop, hrdrop⟩
      rw [trim, hdrop]
      exact hrdrop
  rw [hparts, List.dropWhile_eq_self_iff, List.rdropWhile_eq_self_iff]
  cases text with
  | nil => simp
  | cons a rest => simp [List.getLast?_eq_some_getLast]

theorem trim_append {before after : List Char} (hbefore : before ≠ []) (hafter : after ≠ [])
    (before_trim : trim before = before) (after_trim : trim after = after) :
    trim (before ++ after) = before ++ after := by
  rw [trim_eq_self_iff] at before_trim after_trim ⊢
  rw [List.head?_append_of_ne_nil _ hbefore, List.getLast?_append_of_ne_nil _ hafter]
  exact ⟨before_trim.1, after_trim.2⟩

theorem exists_intercalate_append {α : Type} (sep : α) {parts : List (List α)} (h : parts ≠ []) :
    ∃ before, ∃ last ∈ parts, [sep].intercalate parts = before ++ last := by
  induction parts with
  | nil => exact absurd rfl h
  | cons first rest ih =>
    cases rest with
    | nil => exact ⟨[], first, List.mem_singleton_self first, by simp⟩
    | cons second rest =>
      obtain ⟨before, last, hlast, hrest⟩ := ih (List.cons_ne_nil _ _)
      refine ⟨first ++ [sep] ++ before, last, List.mem_cons_of_mem _ hlast, ?_⟩
      rw [List.intercalate_cons_cons, hrest, List.append_assoc _ before]

end Text

namespace Config.Internal

-- A tag that stands for itself in a list of tags.
structure Listed (tag : String) : Prop where
  ne : tag ≠ ""
  trim : Text.trim tag.toList = tag.toList
  separators : ∀ a ∈ [',', '|', '\n'], a ∉ tag.toList

instance (tag : String) : Decidable (Listed tag) :=
  decidable_of_iff (tag ≠ "" ∧ Text.trim tag.toList = tag.toList ∧
    ',' ∉ tag.toList ∧ '|' ∉ tag.toList ∧ '\n' ∉ tag.toList)
    ⟨fun ⟨hne, htrim, hseparators⟩ => ⟨hne, htrim, by simpa using hseparators⟩,
      fun h => ⟨h.ne, h.trim, by simpa using h.separators⟩⟩

namespace Listed

variable {tag other : String}

theorem append (h : Listed tag) (hother : Listed other) : Listed (tag ++ other) where
  ne := by simp [h.ne]
  trim := by
    rw [String.toList_append]
    exact Text.trim_append (String.toList_eq_nil_iff.not.mpr h.ne)
      (String.toList_eq_nil_iff.not.mpr hother.ne) h.trim hother.trim
  separators a ha := by
    rw [String.toList_append, List.mem_append, not_or]
    exact ⟨h.separators a ha, hother.separators a ha⟩

theorem written (h : Listed tag) : Listed (written tag) := by
  by_cases hvalued : ':' ∈ tag.toList
  · rwa [written_of_valued hvalued]
  · rw [written_of_bare hvalued]
    exact h.append (by decide +kernel)

theorem host (h : Listed tag) : Listed ("host:" ++ tag) :=
  append (by decide +kernel) h

theorem last_ne_return (h : Listed tag) (before : List Char) :
    (before ++ tag.toList).getLast? ≠ some '\r' := by
  rw [List.getLast?_append_of_ne_nil _ (String.toList_eq_nil_iff.not.mpr h.ne)]
  intro hlast
  exact absurd ((Text.trim_eq_self_iff.mp h.trim).2 _ hlast) (by decide)

end Listed

def entryText (entry : String × String) : String :=
  entry.1 ++ ":" ++ entry.2

theorem tagList_eq {tags : List (String × String)} (h : tags ≠ []) : Telemetry.tagList tags =
    some ([','].intercalate ((tags.map entryText).map String.toList)) := by
  have htexts : (tags.map entryText).map String.toList =
      tags.map fun tag => tag.1.toList ++ ':' :: tag.2.toList := by
    simp [entryText]
  rw [htexts, Telemetry.tagList, if_neg (by simpa using h)]

section

variable {tags : List (String × String)} (h : ∀ entry ∈ tags, Listed (entryText entry))

include h

theorem notMem_tagList {a : Char} (ha : a ∈ ['|', '\n']) :
    ∀ list ∈ Telemetry.tagList tags, a ∉ list := by
  have hcomma : a ≠ ',' ∧ a ∈ [',', '|', '\n'] := by
    simp only [List.mem_cons, List.not_mem_nil, or_false] at ha
    rcases ha with rfl | rfl <;> decide
  intro list hlist
  by_cases hnil : tags = []
  · rw [hnil] at hlist
    cases hlist
  · rw [tagList_eq hnil] at hlist
    obtain rfl := Option.some.inj hlist
    refine Text.notMem_intercalate hcomma.1 ?_
    simp only [List.forall_mem_map]
    exact fun entry hentry => (h entry hentry).separators a hcomma.2

theorem tagsOf_tagList : Line.tagsOf (Telemetry.tagList tags) = Tags.ofList (tags.map entryText) := by
  by_cases hnil : tags = []
  · rw [hnil]
    exact (Tags.extend_nil .empty).symm
  · have htexts : ∀ text ∈ tags.map entryText, Listed text := by
      simpa only [List.forall_mem_map] using h
    rw [tagList_eq hnil, Line.tagsOf, Line.readTags_intercalate (fun text ht => (htexts text ht).ne)
      (fun text ht => (htexts text ht).trim)
      fun text ht => (htexts text ht).separators ',' (by decide)]

end

theorem exists_line_append (c : Telemetry.Client) (m : Telemetry.Measurement)
    (h : m.tags ++ c.defaultTags ≠ []) : ∃ before, ∃ entry ∈ m.tags ++ c.defaultTags,
      (c.line m).toList = before ++ (entryText entry).toList := by
  have hne : ((m.tags ++ c.defaultTags).map entryText).map String.toList ≠ [] := by simpa using h
  obtain ⟨start, last, hlast, hlist⟩ := Text.exists_intercalate_append ',' hne
  rw [List.map_map] at hlast
  obtain ⟨entry, hentry, rfl⟩ := List.mem_map.mp hlast
  obtain ⟨head, hline⟩ : ∃ head, c.line m = head ++ Telemetry.tagsText (m.tags ++ c.defaultTags) :=
    ⟨_, rfl⟩
  refine ⟨head.toList ++ '|' :: '#' :: start, entry, hentry, ?_⟩
  rw [hline, String.toList_append, Telemetry.toList_tagsText, tagList_eq h, hlist]
  simp

-- What comes of a measurement: the records of its lines, by the rules for the daemon's own lines.
def arrivals (c : Telemetry.Client) (m : Telemetry.Measurement) : List (Pipeline.Records Binary64) :=
  (c.lines [m]).map fun line =>
    Pipeline.Intake.recordsOf (Line.readAll Pipeline.Intake.ownRules none line.toUTF8.toList)

variable {i : Internal} {machine : Option String} {host : String} {m : Telemetry.Measurement}

theorem mem_texts (hhost : i.hostname.or machine = some host)
    (hkeys : ∀ tag ∈ i.tags, Tags.keyOf tag ≠ "host") {text : String} :
    text ∈ (i.client machine).defaultTags.map entryText ↔
      text ∈ ("host:" ++ host) :: (latest i.tags).map written := by
  rw [List.mem_map, List.mem_cons, List.mem_map]
  constructor
  · rintro ⟨entry, hentry, rfl⟩
    rcases (mem_defaultTags hhost hkeys).mp hentry with rfl | ⟨tag, htag, rfl⟩
    · exact .inl rfl
    · exact .inr ⟨tag, htag, rfl⟩
  · rintro (rfl | ⟨tag, htag, rfl⟩)
    · exact ⟨("host", host), (mem_defaultTags hhost hkeys).mpr (.inl rfl), rfl⟩
    · exact ⟨_, (mem_defaultTags hhost hkeys).mpr (.inr ⟨tag, htag, rfl⟩), rfl⟩

theorem exists_arrival (hhost : i.hostname.or machine = some host) (host_listed : Listed host)
    (tags_listed : ∀ tag ∈ i.tags, Listed tag) (hkeys : ∀ tag ∈ i.tags, Tags.keyOf tag ≠ "host")
    (hscope : (i.client machine).Scoped) (whole : (i.client machine).sampleRate = 1)
    (readable : m.Readable) (sent : m.isSent = true) (bare : m.tags = []) :
    ∃ metric : Metric Binary64, arrivals (i.client machine) m = [{ metrics := [metric] }] ∧
      metric.name = (i.client machine).fullName m ∧ metric.kind = m.kind.metricKind ∧
      metric.tags = Tags.ofList (("host:" ++ host) :: (latest i.tags).map written) := by
  have htexts : ∀ text ∈ (i.client machine).defaultTags.map entryText, Listed text := by
    intro text htext
    rw [mem_texts hhost hkeys, List.mem_cons, List.mem_map] at htext
    rcases htext with rfl | ⟨tag, htag, rfl⟩
    · exact host_listed.host
    · exact (tags_listed tag ((latest_sublist i.tags).subset htag)).written
  have htags : m.tags ++ (i.client machine).defaultTags = (i.client machine).defaultTags := by
    rw [bare, List.nil_append]
  have hlisted : ∀ entry ∈ m.tags ++ (i.client machine).defaultTags, Listed (entryText entry) := by
    rw [htags]
    exact fun entry hentry => htexts _ (List.mem_map_of_mem hentry)
  have hne : m.tags ++ (i.client machine).defaultTags ≠ [] := by
    rw [htags]
    exact List.ne_nil_of_mem ((mem_defaultTags hhost hkeys).mpr (.inl rfl))
  have hlast : ((i.client machine).line m).toList.getLast? ≠ some '\r' := by
    obtain ⟨before, entry, hentry, hend⟩ := exists_line_append (i.client machine) m hne
    rw [hend]
    exact (hlisted entry hentry).last_ne_return before
  obtain ⟨metric, hread, hname, hkind, -, hmetric, -⟩ := Telemetry.readAll_line whole hscope readable
    (fun list hlist => ⟨notMem_tagList hlisted (a := '|') (by decide) list hlist,
      notMem_tagList hlisted (a := '\n') (by decide) list hlist⟩)
    hlast Pipeline.Intake.ownRules none
  have hlines : (i.client machine).lines [m] = [(i.client machine).line m] := by
    rw [Telemetry.Client.lines, whole, if_pos Line.one_between.1]
    simp [sent]
  refine ⟨metric, ?_, hname, hkind, ?_⟩
  · rw [arrivals, hlines, List.map_singleton, hread]
    rfl
  · rw [hmetric, Line.completeTags_of_bare rfl, tagsOf_tagList hlisted, htags]
    refine Tags.eq_of_mem_iff fun text => ?_
    rw [Tags.consists_ofList, Tags.consists_ofList, mem_texts hhost hkeys]

-- A measurement arrives as one metric with the latest of the configured tags under each key and the
-- host. They are the tags of the settings exactly if all of these have a value and no two different
-- ones share a key.
theorem own_tags_arrive (hhost : i.hostname.or machine = some host) (host_listed : Listed host)
    (tags_listed : ∀ tag ∈ i.tags, Listed tag) (hkeys : ∀ tag ∈ i.tags, Tags.keyOf tag ≠ "host")
    (hscope : (i.client machine).Scoped) (whole : (i.client machine).sampleRate = 1)
    (readable : m.Readable) (sent : m.isSent = true) (bare : m.tags = []) :
    ∃ metric : Metric Binary64, arrivals (i.client machine) m = [{ metrics := [metric] }] ∧
      metric.name = (i.client machine).fullName m ∧ metric.kind = m.kind.metricKind ∧
      metric.tags = Tags.ofList (("host:" ++ host) :: (latest i.tags).map written) ∧
      (metric.tags = Tags.ofList (("host:" ++ host) :: i.tags) ↔ Keyed i.tags) := by
  obtain ⟨metric, harrival, hname, hkind, htags⟩ :=
    exists_arrival hhost host_listed tags_listed hkeys hscope whole readable sent bare
  refine ⟨metric, harrival, hname, hkind, htags, ?_⟩
  rw [htags]
  exact ofList_latest_iff hkeys

def labelled (tags : List String) : Internal :=
  { tags, hostname := some "web1" }

-- A value with a colon, a tag without a value, and a key that comes twice.
theorem mixed_tags_arrive : ∃ metric : Metric Binary64,
    arrivals ((labelled ["team:db:eu", "canary", "env:test", "env:prod"]).client none)
      (Telemetry.gauge "heartbeat" 1) = [{ metrics := [metric] }] ∧
    metric.name = "statsd.heartbeat" ∧ metric.kind = .gauge ∧
    metric.tags = Tags.ofList ["host:web1", "team:db:eu", "canary:", "env:prod"] := by
  have hlisted : ∀ tag ∈ ["team:db:eu", "canary", "env:test", "env:prod"],
      Listed tag ∧ Tags.keyOf tag ≠ "host" := by
    decide +kernel
  have hlatest : (latest ["team:db:eu", "canary", "env:test", "env:prod"]).map written =
      ["team:db:eu", "canary:", "env:prod"] := by
    decide +kernel
  have hhost : (labelled ["team:db:eu", "canary", "env:test", "env:prod"]).hostname.or none =
      some "web1" := rfl
  have hreadable : (Telemetry.gauge "heartbeat" 1).Readable :=
    { named := by decide
      name := by simp [Telemetry.gauge]
      name_mark := by decide
      finite := show (1 : ℤ).natAbs < 2 ^ 64 by decide
      nonnegative := nofun }
  obtain ⟨metric, harrival, hname, hkind, htags, -⟩ := own_tags_arrive hhost (by decide +kernel)
    (fun tag htag => (hlisted tag htag).1) (fun tag htag => (hlisted tag htag).2)
    ⟨by simp [labelled, client], by decide⟩ (by decide +kernel) hreadable rfl rfl
  exact ⟨metric, harrival, hname, hkind, htags.trans (congrArg _ (congrArg _ hlatest))⟩

theorem tags_of_arrivals {c : Telemetry.Client} {metric : Metric Binary64}
    (h : arrivals c m = [{ metrics := [metric] }]) :
    (arrivals c m).map (fun records => records.metrics.map Metric.tags) = [[metric.tags]] := by
  rw [h]
  rfl

-- A tag without a value and tags that share a key do not arrive as they are configured, and nothing
-- arrives of a counter that goes back, of what is no number, and under a scope with a bar.
theorem configured_tags_changed : (∀ tag ∈ ["canary", "team:a", "team:b", "web1"],
      Listed tag ∧ Tags.keyOf tag ≠ "host") ∧
    ∀ run ∈ [(labelled ["canary"], Telemetry.counter "hits" 1),
        (labelled ["team:a", "team:b"], Telemetry.counter "hits" 1),
        (labelled [], { Telemetry.counter "hits" 1 with quantity := .whole (-1) }),
        (labelled [], { Telemetry.gauge "load" 1 with quantity := .real .nan }),
        ({ labelled [] with scope := "a|b" }, Telemetry.counter "hits" 1)],
      ¬ ∃ metric : Metric Binary64, arrivals (run.1.client none) run.2 = [{ metrics := [metric] }] ∧
        metric.tags = Tags.ofList ("host:web1" :: run.1.tags) := by
  refine ⟨by decide +kernel, ?_⟩
  rintro run hrun ⟨metric, harrival, htags⟩
  have hread := tags_of_arrivals harrival
  rw [htags] at hread
  simp only [List.mem_cons, List.not_mem_nil, or_false] at hrun
  rcases hrun with rfl | rfl | rfl | rfl | rfl <;> exact absurd hread (by decide +kernel)

end Config.Internal

end StatsDaemon
