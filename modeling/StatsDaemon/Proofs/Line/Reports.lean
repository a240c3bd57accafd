import StatsDaemon.Proofs.Line.Isolation
import StatsDaemon.Proofs.Line.Numbers
import StatsDaemon.Proofs.Line.RoundTrip
import StatsDaemon.Telemetry.Catalog

namespace StatsDaemon

namespace Line

def Record.source : Record → Option String
  | .metric m => m.source
  | .event e => e.source

theorem source_of_readEvent {rules : Rules} {source : Option String} {header : List Char}
    {e : Event} (h : readEvent rules source header = .ok e) : e.source = source := by
  unfold readEvent at h
  obtain ⟨⟨title, text, fields⟩, -, h⟩ := ok_of_bind h
  dsimp only at h
  generalize List.foldlM readEventField _ fields = state at h
  obtain ⟨event, -, h⟩ := ok_of_bind h
  cases h
  rfl

theorem source_of_read {rules : Rules} {source : Option String} {line : List Char}
    {record : Record} (h : read rules source line = .ok record) : record.source = source := by
  unfold read at h
  split at h
  · split at h
    · rename_i hevent
      cases h
      exact source_of_readEvent hevent
    · cases h
  · split at h
    · cases h
    · obtain ⟨m, hm, rfl⟩ := ok_of_map h
      obtain ⟨-, -, -, -, -, -, hsource⟩ := parts_of_readMetric hm
      exact hsource

theorem source_of_readAll {rules : Rules} {source : Option String} {data : List UInt8}
    {record : Record} (h : .ok record ∈ readAll rules source data) : record.source = source := by
  obtain ⟨line, hline⟩ := read_of_readAll h
  exact source_of_read hline

theorem readAll_encode (rules : Rules) (source : Option String) {text : List Char} (hne : text ≠ [])
    (hbreak : '\n' ∉ text) (hreturn : text.getLast? ≠ some '\r') :
    readAll rules source (Text.encode text) = [read rules source text] := by
  have hbytes : lineBreak ∉ Text.encode text := Text.notMem_encode (c := '\n') (by decide) hbreak
  rw [readAll_of_notMem _ _ _ hbytes, readBytes_encode, dropReturn_of_ne hreturn, if_neg hne]
  rfl

-- The parts of a metric between its bars, with tags or without.
def metricPieces (name text code : List Char) (tags : Option (List Char)) : List (List Char) :=
  (name ++ ':' :: text) :: code :: (tags.map ('#' :: ·)).toList

def tagsOf : Option (List Char) → Tags
  | none => .empty
  | some list => .ofList (readTags list)

section

variable {name text code : List Char} {tags : Option (List Char)}

theorem notMem_metricPieces {a : Char} (ha : a ∉ [':', '#']) (hname : a ∉ name) (htext : a ∉ text)
    (hcode : a ∉ code) (htags : ∀ list ∈ tags, a ∉ list) :
    ∀ piece ∈ metricPieces name text code tags, a ∉ piece := by
  simp only [List.mem_cons, List.not_mem_nil, or_false, not_or] at ha
  cases tags with
  | none => simp [metricPieces, hname, htext, hcode, ha]
  | some list => simp [metricPieces, hname, htext, hcode, ha, htags]

theorem read_of_name (rules : Rules) (source : Option String) (bar : '|' ∉ name)
    (mark : ¬ eventMark <+: name) (rest : List Char) :
    read rules source (name ++ ':' :: rest) =
      (readMetric rules source (name ++ ':' :: rest)).map .metric := by
  have hmark : Text.dropStart? eventMark (name ++ ':' :: rest) = none := by
    rw [Text.dropStart?_eq_none_iff]
    exact fun hstart => mark (Text.prefix_of_prefix_append (by decide) hstart)
  have hcheck : checkMark.isPrefixOf (name ++ ':' :: rest) = false := by
    rw [Bool.eq_false_iff, ne_eq, List.isPrefixOf_iff_prefix]
    intro hstart
    have hname := Text.prefix_of_prefix_append (by decide) hstart
    exact bar (hname.subset (by decide))
  rw [read, hmark]
  simp only [hcheck, Bool.false_eq_true, if_false]

theorem read_metricPieces (rules : Rules) (source : Option String) {kind : Kind}
    {value : Value Binary64} (named : name ≠ []) (colon : ':' ∉ name) (mark : ¬ eventMark <+: name)
    (bar : ∀ piece ∈ metricPieces name text code tags, '|' ∉ piece)
    (hkind : ∀ fields, readKind (code :: fields) = .ok (kind, fields))
    (hvalue : readValue kind text = .ok value) :
    read rules source (['|'].intercalate (metricPieces name text code tags)) =
      .ok (.metric
        { name := rules.fullName (String.ofList name)
          value
          sampleRate := 1
          tags := rules.completeTags source (tagsOf tags)
          source }) := by
  have hfields : ((tags.map ('#' :: ·)).toList).foldlM readField (1, .empty) =
      .ok (1, tagsOf tags) := by
    cases tags <;> rfl
  have hname : '|' ∉ name := fun hmem => bar _ List.mem_cons_self (List.mem_append_left _ hmem)
  obtain ⟨rest, hline⟩ : ∃ rest, ['|'].intercalate (metricPieces name text code tags) =
      name ++ ':' :: rest := by
    rw [metricPieces, List.intercalate_cons_cons, List.append_assoc, List.append_assoc,
      List.cons_append]
    exact ⟨_, rfl⟩
  rw [hline, read_of_name rules source hname mark, ← hline, metricPieces,
    readMetric_pieces rules source named colon bar (hkind _) hvalue hfields]
  rfl

end

end Line

namespace Telemetry

def Quantity.Finite : Quantity → Prop
  | .whole i => i.natAbs < 2 ^ 64
  | .real x => x.isFinite = true

def Quantity.Nonnegative : Quantity → Prop
  | .whole i => 0 ≤ i
  | .real x => ¬ x < 0

-- What can be read from a line of its own: counters do not go back.
structure Measurement.Readable (m : Measurement) : Prop where
  named : m.name ≠ ""
  name : ∀ a ∈ [':', '|', '\n'], a ∉ m.name.toList
  name_mark : ¬ Line.eventMark <+: m.name.toList
  finite : m.quantity.Finite
  nonnegative : m.kind = .counter → m.quantity.Nonnegative

-- A scope that writes nothing that would end the name.
structure Client.Scoped (c : Client) : Prop where
  scope : ∀ a ∈ [':', '|', '\n'], a ∉ c.scope.toList
  scope_mark : ¬ Line.eventMark <+: c.scope.toList

structure Client.Plain (c : Client) : Prop where
  scope : ∀ a ∈ [':', '|', '\n', '\r'], a ∉ c.scope.toList
  scope_mark : ¬ Line.eventMark <+: c.scope.toList
  tags : ∀ tag ∈ c.defaultTags, ∀ a ∈ ['|', '\n', '\r'], a ∉ tag.1.toList ∧ a ∉ tag.2.toList

theorem scoped_of_plain {c : Client} (h : c.Plain) : c.Scoped where
  scope a ha := h.scope a (List.mem_append_left ['\r'] ha)
  scope_mark := h.scope_mark

def MeasurementKind.metricKind : MeasurementKind → Kind
  | .counter => .counter
  | .gauge => .gauge
  | .set => .set
  | .distribution => .timer

theorem readKind_measurement (kind : MeasurementKind) (fields : List (List Char)) :
    Line.readKind (kind.code.toList :: fields) = .ok (kind.metricKind, fields) := by
  cases kind <;> rfl

theorem notMem_code {a : Char} (ha : a ∈ ['|', '\n', '\r']) (kind : MeasurementKind) :
    a ∉ kind.code.toList := by
  simp only [List.mem_cons, List.not_mem_nil, or_false] at ha
  rcases ha with rfl | rfl | rfl <;> cases kind <;> decide

theorem isPlain_of_mem_text {q : Quantity} (h : q.Finite) : ∀ a ∈ q.text, Decimal.IsPlain a := by
  cases q with
  | whole i =>
    refine List.forall_mem_append.mpr ⟨?_, fun a ha => .inl (Decimal.allDigits_digitsOf _ a ha)⟩
    unfold Decimal.signOf
    split <;> simp [Decimal.IsPlain]
  | real x => exact Decimal.isPlain_of_mem_render x h

theorem readNumber_text {q : Quantity} (h : q.Finite) :
    ∃ x, Line.readNumber q.text = .ok x ∧ (q.Nonnegative → ¬ x < 0) := by
  cases q with
  | whole i =>
    obtain ⟨x, hread, hfinite, hsign⟩ := Line.read?_whole h
    refine ⟨x, ?_, hsign⟩
    simp only [Line.readNumber, Quantity.text, hread, hfinite, if_true]
  | real x =>
    have hfinite : x.isFinite = true := h
    refine ⟨x, ?_, id⟩
    simp only [Line.readNumber, Quantity.text, Decimal.read?_render _ x hfinite, hfinite, if_true]

theorem readValue_measurement {m : Measurement} (h : m.Readable) :
    ∃ value, Line.readValue m.kind.metricKind m.quantity.text = .ok value ∧
      value.kind = m.kind.metricKind := by
  obtain ⟨x, hnumber, hsign⟩ := readNumber_text h.finite
  cases hkind : m.kind with
  | counter =>
    refine ⟨.counter x, ?_, rfl⟩
    simp only [MeasurementKind.metricKind, Line.readValue, hnumber]
    simp only [bind, Except.bind, if_neg (hsign (h.nonnegative hkind))]
  | gauge =>
    refine ⟨.gauge x, ?_, rfl⟩
    simp only [MeasurementKind.metricKind, Line.readValue, hnumber]
    rfl
  | set => exact ⟨_, rfl, rfl⟩
  | distribution =>
    refine ⟨.timer x, ?_, rfl⟩
    simp only [MeasurementKind.metricKind, Line.readValue, hnumber]
    rfl

def tagList (tags : List (String × String)) : Option (List Char) :=
  if tags.isEmpty then none
  else some ([','].intercalate (tags.map fun tag => tag.1.toList ++ ':' :: tag.2.toList))

theorem toList_tagsText (tags : List (String × String)) :
    (tagsText tags).toList = ((tagList tags).map ('|' :: '#' :: ·)).getD [] := by
  unfold tagsText tagList
  split
  · rfl
  · have hparts : (tags.map fun tag => tag.1 ++ ":" ++ tag.2).map String.toList =
        tags.map fun tag => tag.1.toList ++ ':' :: tag.2.toList := by
      simp
    rw [String.toList_append, String.toList_intercalate, hparts]
    rfl

variable {c : Client} {m : Measurement}

def Client.fullName (c : Client) (m : Measurement) : String :=
  c.scopeText ++ m.name

theorem toList_line (whole : c.sampleRate = 1) (m : Measurement) :
    (c.line m).toList = ['|'].intercalate (Line.metricPieces (c.fullName m).toList m.quantity.text
      m.kind.code.toList (tagList (m.tags ++ c.defaultTags))) := by
  have hrate : c.rateText = "" := by
    rw [Client.rateText, whole]
    exact if_neg (by decide +kernel)
  have htags := toList_tagsText (m.tags ++ c.defaultTags)
  simp only [Client.line, Client.fullName, hrate, String.toList_append, htags, Line.metricPieces]
  cases tagList (m.tags ++ c.defaultTags) with
  | none => simp [List.intercalate_cons_cons]
  | some list => simp [List.intercalate_cons_cons]

theorem notMem_scopeText {a : Char} (ha : a ≠ '.') (h : a ∉ c.scope.toList) :
    a ∉ c.scopeText.toList := by
  unfold Client.scopeText
  split
  · simp
  · rw [String.toList_ofList, List.mem_append, List.mem_singleton, not_or, List.mem_reverse]
    exact ⟨fun hmem => h (List.mem_reverse.mp ((List.dropWhile_subset _) hmem)), ha⟩

theorem notMem_fullName {a : Char} (ha : a ≠ '.') (hscope : a ∉ c.scope.toList)
    (hname : a ∉ m.name.toList) : a ∉ (c.fullName m).toList := by
  rw [Client.fullName, String.toList_append, List.mem_append, not_or]
  exact ⟨notMem_scopeText ha hscope, hname⟩

-- The scope ends in a dot, so a mark without one would be at its beginning.
theorem mark_of_fullName {mark : List Char} (dot : '.' ∉ mark)
    (hname : ¬ mark <+: m.name.toList) (h : ¬ mark <+: c.scope.toList) :
    ¬ mark <+: (c.fullName m).toList := by
  rw [Client.fullName, String.toList_append]
  unfold Client.scopeText
  split
  · simpa using hname
  · rw [String.toList_ofList, List.append_assoc]
    intro hstart
    have hstripped := Text.prefix_of_prefix_append dot hstart
    exact h (hstripped.trans (List.rdropWhile_prefix _ _))

theorem notMem_tagList (h : c.Plain) {a : Char} (ha : a ∈ ['|', '\n', '\r']) :
    ∀ list ∈ tagList c.defaultTags, a ∉ list := by
  have hseparators : a ≠ ',' ∧ a ≠ ':' := by
    simp only [List.mem_cons, List.not_mem_nil, or_false] at ha
    rcases ha with rfl | rfl | rfl <;> decide
  intro list hlist
  unfold tagList at hlist
  split at hlist
  · cases hlist
  · obtain rfl := Option.some.inj hlist
    refine Text.notMem_intercalate hseparators.1 fun part hpart => ?_
    obtain ⟨tag, htag, rfl⟩ := List.mem_map.mp hpart
    obtain ⟨hkey, hvalue⟩ := h.tags tag htag a ha
    simp [hkey, hvalue, hseparators.2]

theorem notMem_metricPieces {a : Char} (ha : a ∈ ['|', '\n', '\r']) (finite : m.quantity.Finite)
    (hname : a ∉ (c.fullName m).toList)
    (htags : ∀ list ∈ tagList (m.tags ++ c.defaultTags), a ∉ list) :
    ∀ piece ∈ Line.metricPieces (c.fullName m).toList m.quantity.text m.kind.code.toList
      (tagList (m.tags ++ c.defaultTags)), a ∉ piece := by
  have hsigns : a ∉ [':', '#'] ∧ ¬ Decimal.IsPlain a := by
    simp only [List.mem_cons, List.not_mem_nil, or_false] at ha
    rcases ha with rfl | rfl | rfl <;> simp [Decimal.IsPlain]
  exact Line.notMem_metricPieces hsigns.1 hname
    (fun hmem => hsigns.2 (isPlain_of_mem_text finite a hmem)) (notMem_code ha m.kind) htags

-- Whatever such a client measures is read back as one metric.
theorem readAll_line (whole : c.sampleRate = 1) (h : c.Scoped) (hm : m.Readable)
    (tags : ∀ list ∈ tagList (m.tags ++ c.defaultTags), '|' ∉ list ∧ '\n' ∉ list)
    (last : (c.line m).toList.getLast? ≠ some '\r') (rules : Line.Rules) (source : Option String) :
    ∃ metric : Metric Binary64,
      Line.readAll rules source (c.line m).toUTF8.toList = [.ok (.metric metric)] ∧
      metric.name = rules.fullName (c.fullName m) ∧ metric.kind = m.kind.metricKind ∧
      metric.sampleRate = 1 ∧
      metric.tags = rules.completeTags source (Line.tagsOf (tagList (m.tags ++ c.defaultTags))) ∧
      metric.source = source := by
  have hname : ∀ a ∈ [':', '|', '\n'], a ∉ (c.fullName m).toList := by
    intro a ha
    refine notMem_fullName ?_ (h.scope a ha) (hm.name a ha)
    rintro rfl
    exact absurd ha (by decide)
  have named : (c.fullName m).toList ≠ [] := by
    simp [Client.fullName, hm.named]
  have hbar := notMem_metricPieces (a := '|') (by decide) hm.finite (hname '|' (by decide))
    fun list hlist => (tags list hlist).1
  have hbreak := notMem_metricPieces (a := '\n') (by decide) hm.finite (hname '\n' (by decide))
    fun list hlist => (tags list hlist).2
  obtain ⟨value, hvalue, hkind⟩ := readValue_measurement hm
  have hread := Line.read_metricPieces rules source named (hname ':' (by decide))
    (mark_of_fullName (by decide) hm.name_mark h.scope_mark) hbar (readKind_measurement m.kind)
    hvalue
  rw [← toList_line whole, String.ofList_toList] at hread
  have hne : (c.line m).toList ≠ [] := by
    rw [toList_line whole, Line.metricPieces, List.intercalate_cons_cons]
    simp
  have hline : '\n' ∉ (c.line m).toList := by
    rw [toList_line whole]
    exact Text.notMem_intercalate (by decide) hbreak
  have hbytes : (c.line m).toUTF8.toList = Text.encode (c.line m).toList := by
    rw [Text.encode, String.ofList_toList]
  rw [hbytes, Line.readAll_encode rules source hne hline last, hread]
  exact ⟨_, rfl, rfl, hkind, rfl, rfl, rfl⟩

theorem readAll_counter (h : c.Plain) (whole : c.sampleRate = 1) (name : String) {n : ℕ}
    (named : name ≠ "") (plain : ∀ a ∈ [':', '|', '\n', '\r'], a ∉ name.toList)
    (mark : ¬ Line.eventMark <+: name.toList) (small : n < 2 ^ 64) (rules : Line.Rules)
    (source : Option String) :
    ∃ m, Line.readAll rules source (c.line (counter name n)).toUTF8.toList = [.ok (.metric m)] := by
  have hm : (counter name n).Readable :=
    { named
      name := fun a ha => plain a (List.mem_append_left ['\r'] ha)
      name_mark := mark
      finite := show (n : ℤ).natAbs < 2 ^ 64 from small
      nonnegative := fun _ => Int.natCast_nonneg n }
  have htags : (counter name n).tags ++ c.defaultTags = c.defaultTags := rfl
  have hreturn : '\r' ∉ (c.line (counter name n)).toList := by
    have hname : '\r' ∉ (c.fullName (counter name n)).toList :=
      notMem_fullName (by decide) (h.scope '\r' (by decide)) (plain '\r' (by decide))
    rw [toList_line whole]
    refine Text.notMem_intercalate (by decide) (notMem_metricPieces (by decide) hm.finite hname ?_)
    rw [htags]
    exact notMem_tagList h (by decide)
  have hlast : (c.line (counter name n)).toList.getLast? ≠ some '\r' :=
    fun hlast => hreturn (List.mem_of_getLast? hlast)
  obtain ⟨m, hread, -⟩ := readAll_line whole (scoped_of_plain h) hm
    (fun list hlist => ⟨notMem_tagList h (a := '|') (by decide) list (htags ▸ hlist),
      notMem_tagList h (a := '\n') (by decide) list (htags ▸ hlist)⟩) hlast rules source
  exact ⟨m, hread⟩

end Telemetry

end StatsDaemon
