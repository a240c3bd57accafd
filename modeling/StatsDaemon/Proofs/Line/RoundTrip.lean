import StatsDaemon.Line.Reader
import StatsDaemon.Proofs.Decimal.RoundTrip
import StatsDaemon.Proofs.Line.Decoration

namespace StatsDaemon

def Metric.line (m : Metric Binary64) : String :=
  m.name ++ ":" ++ m.value.text ++ "|" ++ m.kind.code ++ "|@" ++ Decimal.plainText m.sampleRate ++
    "|#" ++ m.tags.text

def Value.Printable : Value Binary64 → Prop
  | .counter x => x.isFinite = true ∧ ¬ x < 0
  | .gauge x | .timer x => x.isFinite = true
  | .set member => '|' ∉ member.toList

structure Metric.Printable (m : Metric Binary64) : Prop where
  source : m.source = none
  named : m.name ≠ ""
  name_colon : ':' ∉ m.name.toList
  name_bar : '|' ∉ m.name.toList
  name_mark : ¬ Line.eventMark <+: m.name.toList
  value : m.value.Printable
  rate : 0 < m.sampleRate ∧ m.sampleRate ≤ 1
  tag_ne : ∀ tag ∈ m.tags.items, tag ≠ ""
  tag_trim : ∀ tag ∈ m.tags.items, Text.trim tag.toList = tag.toList
  tag_comma : ∀ tag ∈ m.tags.items, ',' ∉ tag.toList
  tag_bar : ∀ tag ∈ m.tags.items, '|' ∉ tag.toList

namespace Line

theorem tags_toList (tags : Tags) :
    tags.text.toList = [','].intercalate (tags.items.map String.toList) :=
  String.toList_intercalate

theorem bar_notMem_tags (tags : Tags) (h : ∀ tag ∈ tags.items, '|' ∉ tag.toList) :
    '|' ∉ tags.text.toList := by
  rw [tags_toList]
  exact Text.notMem_intercalate (by decide) (by simpa using h)

-- A list of no tags is read as such, though there is an empty piece in it.
theorem readTags_intercalate {items : List String} (hne : ∀ tag ∈ items, tag ≠ "")
    (htrim : ∀ tag ∈ items, Text.trim tag.toList = tag.toList)
    (hcomma : ∀ tag ∈ items, ',' ∉ tag.toList) :
    readTags ([','].intercalate (items.map String.toList)) = items := by
  rw [readTags]
  by_cases hnil : items = []
  · rw [hnil]
    decide
  · rw [Text.pieces_intercalate (by simpa using hnil) (by simpa using hcomma), List.map_map]
    have hpieces : items.map (Text.trim ∘ String.toList) = items.map String.toList :=
      List.map_congr_left htrim
    rw [hpieces, List.filterMap_map]
    refine (List.filterMap_congr fun tag htag => ?_).trans List.filterMap_some
    have hchars : tag.toList ≠ [] := fun h => hne tag htag (String.toList_eq_nil_iff.mp h)
    simp only [Function.comp_apply, List.isEmpty_iff, if_neg hchars, String.ofList_toList]

theorem readTags_text (tags : Tags) (hne : ∀ tag ∈ tags.items, tag ≠ "")
    (htrim : ∀ tag ∈ tags.items, Text.trim tag.toList = tag.toList)
    (hcomma : ∀ tag ∈ tags.items, ',' ∉ tag.toList) : readTags tags.text.toList = tags.items := by
  rw [tags_toList]
  exact readTags_intercalate hne htrim hcomma

theorem bar_notMem_plainText (x : Binary64) (hx : x.isFinite = true) :
    '|' ∉ (Decimal.plainText x).toList := by
  have hbar : ¬ Decimal.IsPlain '|' := by
    rintro (h | h | h) <;> exact absurd h (by decide)
  rw [Decimal.plainText, String.toList_ofList]
  exact Decimal.notMem_render hbar x hx

theorem bar_notMem_text (value : Value Binary64) (h : value.Printable) :
    '|' ∉ value.text.toList := by
  cases value with
  | set member => exact h
  | counter x => exact bar_notMem_plainText x h.1
  | gauge x => exact bar_notMem_plainText x h
  | timer x => exact bar_notMem_plainText x h

theorem readNumber_plainText (x : Binary64) (hx : x.isFinite = true) :
    readNumber (Decimal.plainText x).toList = .ok x := by
  rw [readNumber, Decimal.plainText, String.toList_ofList, Decimal.read?_render _ x hx]
  simp only [hx, if_true]

theorem readValue_text (value : Value Binary64) (h : value.Printable) :
    readValue value.kind value.text.toList = .ok value := by
  cases value with
  | set member => simp only [Value.kind, readValue, Value.text, String.ofList_toList]
  | counter x =>
    simp only [Value.kind, readValue, Value.text, readNumber_plainText x h.1]
    simp only [bind, Except.bind, if_neg h.2]
  | gauge x =>
    simp only [Value.kind, readValue, Value.text, readNumber_plainText x h]
    rfl
  | timer x =>
    simp only [Value.kind, readValue, Value.text, readNumber_plainText x h]
    rfl

theorem readKind_code (kind : Kind) (fields : List (List Char)) :
    readKind (kind.code.toList :: fields) = .ok (kind, fields) := by
  cases kind <;> rfl

theorem readField_rate (state : Binary64 × Tags) (rate : Binary64) (h : 0 < rate ∧ rate ≤ 1) :
    readField state ('@' :: (Decimal.plainText rate).toList) = .ok (rate, state.2) := by
  have hread : readRate (Decimal.plainText rate).toList = .ok rate := by
    rw [readRate, Decimal.plainText, String.toList_ofList,
      Decimal.read?_render _ rate (Binary64.isFinite_of_between h.1 h.2)]
    simp only [if_pos h]
  simp only [readField, hread, Except.map]

theorem readField_tags (state : Binary64 × Tags) (list : List Char) :
    readField state ('#' :: list) = .ok (state.1, state.2.extend (readTags list)) :=
  rfl

theorem readMetric_pieces (rules : Rules) (source : Option String) {name text code : List Char}
    {fields : List (List Char)} {kind : Kind} {value : Value Binary64} {state : Binary64 × Tags}
    (named : name ≠ []) (colon : ':' ∉ name)
    (bar : ∀ piece ∈ (name ++ ':' :: text) :: code :: fields, '|' ∉ piece)
    (hkind : readKind (code :: fields) = .ok (kind, fields))
    (hvalue : readValue kind text = .ok value)
    (hfields : fields.foldlM readField (1, .empty) = .ok state) :
    readMetric rules source (['|'].intercalate ((name ++ ':' :: text) :: code :: fields)) =
      .ok
        { name := rules.fullName (String.ofList name)
          value
          sampleRate := state.1
          tags := rules.completeTags source state.2
          source } := by
  have hname : name.isEmpty = false := by simpa using named
  simp only [readMetric, Text.pieces_intercalate (List.cons_ne_nil _ _) bar, Text.cut_append colon,
    hname, Bool.false_eq_true, if_false, hkind]
  simp only [bind, Except.bind, hvalue, hfields]

def linePieces (m : Metric Binary64) : List (List Char) :=
  [m.name.toList ++ ':' :: m.value.text.toList, m.kind.code.toList,
    '@' :: (Decimal.plainText m.sampleRate).toList, '#' :: m.tags.text.toList]

theorem line_toList (m : Metric Binary64) :
    m.line.toList = ['|'].intercalate (linePieces m) := by
  simp [Metric.line, linePieces, List.intercalate]

theorem bar_notMem_linePieces (m : Metric Binary64) (h : m.Printable) :
    ∀ piece ∈ linePieces m, '|' ∉ piece := by
  have hcode : '|' ∉ m.kind.code.toList := by
    cases m.kind <;> decide
  have hrate := bar_notMem_plainText m.sampleRate
    (Binary64.isFinite_of_between h.rate.1 h.rate.2)
  simp [linePieces, h.name_bar, bar_notMem_text m.value h.value, hcode, hrate,
    bar_notMem_tags m.tags h.tag_bar]

theorem readMetric_line (m : Metric Binary64) (h : m.Printable) :
    readMetric {} none m.line.toList = .ok m := by
  have named : m.name.toList ≠ [] := fun hnil => h.named (String.toList_eq_nil_iff.mp hnil)
  have htags := readTags_text m.tags h.tag_ne h.tag_trim h.tag_comma
  have hfields : [('@' :: (Decimal.plainText m.sampleRate).toList), '#' :: m.tags.text.toList].foldlM
      readField (1, .empty) = .ok (m.sampleRate, m.tags) := by
    simp only [List.foldlM, readField_rate _ m.sampleRate h.rate, readField_tags, htags]
    exact congrArg (fun tags => Except.ok (m.sampleRate, tags)) (Tags.empty_extend_items m.tags)
  have hvalue : readValue m.kind m.value.text.toList = .ok m.value := readValue_text m.value h.value
  rw [line_toList, linePieces, readMetric_pieces {} none named h.name_colon
    (bar_notMem_linePieces m h) (readKind_code _ _) hvalue hfields, String.ofList_toList,
    completeTags_of_bare rfl]
  obtain ⟨name, value, rate, tags, source⟩ := m
  obtain rfl : source = none := h.source
  rfl

-- The line of a metric is neither an event nor a service check, and it is read as that metric.
theorem read_line (m : Metric Binary64) (h : m.Printable) :
    read {} none m.line.toList = .ok (.metric m) := by
  have hline : m.line.toList = m.name.toList ++ ':' :: (m.value.text.toList ++
      '|' :: ['|'].intercalate (linePieces m).tail) := by
    rw [line_toList]
    simp [linePieces, List.intercalate]
  have hmark : Text.dropStart? eventMark m.line.toList = none := by
    rw [Text.dropStart?_eq_none_iff, hline]
    exact fun hstart => h.name_mark (Text.prefix_of_prefix_append (by decide) hstart)
  have hcheck : checkMark.isPrefixOf m.line.toList = false := by
    rw [Bool.eq_false_iff, hline, ne_eq, List.isPrefixOf_iff_prefix]
    intro hstart
    have hname := Text.prefix_of_prefix_append (by decide) hstart
    exact h.name_bar (hname.subset (by decide))
  rw [read, hmark]
  simp only [hcheck, Bool.false_eq_true, if_false, readMetric_line m h]
  rfl

def pages : Metric Binary64 where
  name := "pages"
  value := .set "/docs:2"
  sampleRate := ⟨0x3fe0000000000000⟩
  tags := .ofList ["web", "env:prod"]
  source := none

theorem pages_read_back :
    pages.Printable ∧ pages.line = "pages:/docs:2|s|@0.5|#env:prod,web" ∧
    read {} none pages.line.toList = .ok (.metric pages) := by
  have hprintable : pages.Printable :=
    { source := rfl
      named := by decide
      name_colon := by decide
      name_bar := by decide
      name_mark := by decide
      value := show '|' ∉ "/docs:2".toList by decide
      rate := by decide +kernel
      tag_ne := by decide +kernel
      tag_trim := by decide +kernel
      tag_comma := by decide +kernel
      tag_bar := by decide +kernel }
  exact ⟨hprintable, by decide +kernel, read_line pages hprintable⟩

end Line

end StatsDaemon
