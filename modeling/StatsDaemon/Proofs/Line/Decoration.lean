import StatsDaemon.Line.Reader
import StatsDaemon.Proofs.Tags

namespace StatsDaemon.Line

def Rules.plain : Rules :=
  { estimatedTags := 0 }

-- Whether the sender is added to the tags of a metric: no host is given by any tag.
def Rules.TagsHost (rules : Rules) (tags : Tags) : Prop :=
  rules.ignoreHost = false ∧
    ∀ tag, tag ∈ tags.items ∨ tag ∈ rules.defaultTags → Tags.keyOf tag ≠ "host"

structure DecoratesMetric (rules : Rules) (source : Option String)
    (plain m : Metric Binary64) : Prop where
  value : m.value = plain.value
  sampleRate : m.sampleRate = plain.sampleRate
  inScope : ∀ scope, rules.scope = some scope → scope ≠ "" → m.name = scope ++ "." ++ plain.name
  bare : rules.scope = none ∨ rules.scope = some "" → m.name = plain.name
  tags : ∀ tag, tag ∈ m.tags.items ↔
    tag ∈ plain.tags.items ∨ tag ∈ rules.defaultTags ∨
      (∃ address, source = some address ∧ tag = "host:" ++ address) ∧ rules.TagsHost plain.tags
  source : m.source = source

-- An event with tags from the rules, and the sender as its host if there is none.
structure DecoratesEvent (rules : Rules) (source : Option String) (plain e : Event) : Prop where
  fields : e = { plain with tags := e.tags, hostname := e.hostname, source := e.source }
  tags : ∀ tag, tag ∈ e.tags.items ↔ tag ∈ plain.tags.items ∨ tag ∈ rules.defaultTags
  given : plain.hostname = none → rules.ignoreHost = false → e.hostname = source
  kept : plain.hostname ≠ none ∨ rules.ignoreHost = true → e.hostname = plain.hostname
  source : e.source = source

inductive Decorates (rules : Rules) (source : Option String) : Record → Record → Prop
  | metric {plain m : Metric Binary64} (h : DecoratesMetric rules source plain m) :
    Decorates rules source (.metric plain) (.metric m)
  | event {plain e : Event} (h : DecoratesEvent rules source plain e) :
    Decorates rules source (.event plain) (.event e)

namespace Rules

def decorateMetric (rules : Rules) (source : Option String) (m : Metric Binary64) :
    Metric Binary64 :=
  { m with name := rules.fullName m.name, tags := rules.completeTags source m.tags, source }

def decorateEvent (rules : Rules) (source : Option String) (e : Event) : Event :=
  { e with
    tags := e.tags.extend rules.defaultTags
    hostname := if rules.ignoreHost then e.hostname else e.hostname.or source
    source }

def decorate (rules : Rules) (source : Option String) : Record → Record
  | .metric m => .metric (rules.decorateMetric source m)
  | .event e => .event (rules.decorateEvent source e)

end Rules

variable {rules : Rules} {source : Option String}

theorem fullName_of_scope {scope name : String} (h : rules.scope = some scope) (hne : scope ≠ "") :
    rules.fullName name = scope ++ "." ++ name := by
  have hsome : ¬ scope.isEmpty = true := by simpa using hne
  simp only [Rules.fullName, h, if_neg hsome]

theorem fullName_of_no_scope {name : String} (h : rules.scope = none ∨ rules.scope = some "") :
    rules.fullName name = name := by
  rcases h with h | h <;> simp [Rules.fullName, h]

theorem mem_union {tags : Tags} {tag : String} :
    tag ∈ (tags.extend rules.defaultTags).items ↔ tag ∈ tags.items ∨ tag ∈ rules.defaultTags :=
  Tags.mem_extend.trans Or.comm

theorem tagsHost_iff {tags : Tags} : rules.TagsHost tags ↔
    ¬ (rules.ignoreHost || (tags.extend rules.defaultTags).hasKey "host") = true := by
  rw [Bool.or_eq_true, not_or, Bool.not_eq_true, Tags.hasKey_iff]
  apply and_congr_right
  intro _
  constructor
  · rintro hnone ⟨tag, hmem, hkey⟩
    exact hnone tag (mem_union.mp hmem) hkey
  · intro hnone tag hmem hkey
    exact hnone ⟨tag, mem_union.mpr hmem, hkey⟩

theorem mem_completeTags {tags : Tags} {tag : String} :
    tag ∈ (rules.completeTags source tags).items ↔
      tag ∈ tags.items ∨ tag ∈ rules.defaultTags ∨
        (∃ address, source = some address ∧ tag = "host:" ++ address) ∧ rules.TagsHost tags := by
  unfold Rules.completeTags
  cases source with
  | none =>
    rw [mem_union]
    simp
  | some address =>
    have hsender : (∃ given, some address = some given ∧ tag = "host:" ++ given) ↔
        tag = "host:" ++ address := by
      simp
    rw [hsender]
    by_cases hhost : rules.TagsHost tags
    · simp only [if_neg (tagsHost_iff.mp hhost)]
      rw [Tags.mem_insert, mem_union, and_iff_left hhost]
      exact Or.comm.trans or_assoc
    · simp only [if_pos (not_not.mp (tagsHost_iff.not.mp hhost))]
      rw [mem_union]
      simp only [hhost, and_false, or_false]

theorem decorates_decorate (rules : Rules) (source : Option String) (record : Record) :
    Decorates rules source record (rules.decorate source record) := by
  cases record with
  | metric m =>
    refine .metric ⟨rfl, rfl, ?_, ?_, ?_, rfl⟩
    · intro scope h hne
      exact fullName_of_scope h hne
    · intro h
      exact fullName_of_no_scope h
    · intro tag
      exact mem_completeTags
  | event e =>
    refine .event ⟨rfl, ?_, ?_, ?_, rfl⟩
    · intro tag
      exact mem_union
    · intro hnone hhost
      simp [Rules.decorateEvent, hnone, hhost]
    · rintro (hhost | hhost)
      · obtain ⟨hostname, hsome⟩ := Option.ne_none_iff_exists'.mp hhost
        simp [Rules.decorateEvent, hsome]
      · simp [Rules.decorateEvent, hhost]

theorem DecoratesMetric.eq_decorateMetric {plain m : Metric Binary64}
    (h : DecoratesMetric rules source plain m) : m = rules.decorateMetric source plain := by
  have hname : m.name = rules.fullName plain.name := by
    cases hscope : rules.scope with
    | none =>
      rw [h.bare (.inl hscope), fullName_of_no_scope (.inl hscope)]
    | some scope =>
      by_cases hempty : scope = ""
      · rw [hempty] at hscope
        rw [h.bare (.inr hscope), fullName_of_no_scope (.inr hscope)]
      · rw [h.inScope scope hscope hempty, fullName_of_scope hscope hempty]
  have htags : m.tags = rules.completeTags source plain.tags := by
    apply Tags.eq_of_mem_iff
    intro tag
    rw [h.tags, mem_completeTags]
  obtain ⟨name, value, rate, tags, sender⟩ := m
  simp only [Rules.decorateMetric, Metric.mk.injEq]
  exact ⟨hname, h.value, h.sampleRate, htags, h.source⟩

theorem DecoratesEvent.eq_decorateEvent {plain e : Event}
    (h : DecoratesEvent rules source plain e) : e = rules.decorateEvent source plain := by
  have htags : e.tags = plain.tags.extend rules.defaultTags := by
    apply Tags.eq_of_mem_iff
    intro tag
    rw [h.tags, mem_union]
  have hhostname : e.hostname =
      if rules.ignoreHost then plain.hostname else plain.hostname.or source := by
    by_cases hhost : rules.ignoreHost = true
    · rw [if_pos hhost, h.kept (.inr hhost)]
    · rw [if_neg hhost]
      cases hgiven : plain.hostname with
      | none => exact h.given hgiven (Bool.eq_false_iff.mpr hhost)
      | some hostname =>
        have hsome : plain.hostname ≠ none := by
          rw [hgiven]
          exact Option.some_ne_none hostname
        rw [h.kept (.inl hsome), hgiven]
        rfl
  rw [h.fields, htags, hhostname, h.source]
  rfl

theorem decorates_iff {record other : Record} :
    Decorates rules source record other ↔ other = rules.decorate source record := by
  constructor
  · intro h
    cases h with
    | metric h =>
      rw [h.eq_decorateMetric]
      rfl
    | event h =>
      rw [h.eq_decorateEvent]
      rfl
  · rintro rfl
    exact decorates_decorate rules source record

theorem bind_eq_map {ε β γ : Type} {x : Except ε β} {f plain : β → Except ε γ} {add : γ → γ}
    (h : ∀ b, f b = (plain b).map add) : (x >>= f) = (x >>= plain).map add := by
  cases x with
  | error fault => rfl
  | ok b => exact h b

theorem completeTags_of_bare (h : rules.defaultTags = []) (tags : Tags) :
    rules.completeTags none tags = tags := by
  rw [Rules.completeTags, h]
  exact Tags.extend_nil tags

theorem readMetric_eq_map (rules : Rules) (source : Option String) (line : List Char) :
    readMetric rules source line =
      (readMetric .plain none line).map (rules.decorateMetric source) := by
  unfold readMetric
  cases Text.pieces '|' line with
  | nil => rfl
  | cons pair components =>
    cases hparts : Text.cut ':' pair with
    | none =>
      simp only [hparts]
      rfl
    | some parts =>
      obtain ⟨name, value⟩ := parts
      simp only [hparts]
      by_cases hempty : name.isEmpty = true
      · simp only [if_pos hempty]
        rfl
      · simp only [if_neg hempty]
        apply bind_eq_map
        intro parts
        apply bind_eq_map
        intro value
        apply bind_eq_map
        intro state
        rw [completeTags_of_bare (show Rules.plain.defaultTags = [] from rfl)]
        rfl

theorem readEvent_eq_map (rules : Rules) (source : Option String) (header : List Char) :
    readEvent rules source header =
      (readEvent .plain none header).map (rules.decorateEvent source) := by
  unfold readEvent
  apply bind_eq_map
  intro parts
  apply bind_eq_map
  intro e
  simp only [Rules.plain, Bool.false_eq_true, if_false, Option.or_none, Tags.extend_nil]
  rfl

theorem read_eq_map (rules : Rules) (source : Option String) (line : List Char) :
    read rules source line = (read .plain none line).map (rules.decorate source) := by
  unfold read
  cases Text.dropStart? eventMark line with
  | some header =>
    simp only [readEvent_eq_map rules source header]
    cases readEvent .plain none header <;> rfl
  | none =>
    simp only [readMetric_eq_map rules source line]
    by_cases hcheck : checkMark.isPrefixOf line = true
    · rw [if_pos hcheck, if_pos hcheck]
      rfl
    · rw [if_neg hcheck, if_neg hcheck]
      cases readMetric .plain none line <;> rfl

-- A line has the same fault by any rules and from any sender, or else its record is the plain one
-- with what the rules and the sender add to it.
theorem read_decorates (rules : Rules) (source : Option String) (line : List Char) :
    match read .plain none line with
    | .error fault => read rules source line = .error fault
    | .ok record => ∃ other, read rules source line = .ok other ∧
        ∀ third, Decorates rules source record third ↔ third = other := by
  rw [read_eq_map rules source line]
  cases read .plain none line with
  | error fault => rfl
  | ok record =>
    refine ⟨rules.decorate source record, rfl, ?_⟩
    intro third
    exact decorates_iff

end StatsDaemon.Line
