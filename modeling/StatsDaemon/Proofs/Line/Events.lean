import StatsDaemon.Proofs.Line.Isolation
import StatsDaemon.Proofs.Text.Integer

namespace StatsDaemon

-- A place between two characters of a text, as the number of bytes before it.
def Text.IsBoundary (n : Nat) (text : List Char) : Prop :=
  ∃ before after, text = before ++ after ∧ Text.byteLength before = n

theorem Text.length_encode (text : List Char) : (Text.encode text).length = Text.byteLength text := by
  rw [Text.encode_eq_flatMap]
  induction text with
  | nil => rfl
  | cons c rest ih =>
    rw [List.flatMap_cons, List.length_append, ih, String.length_utf8EncodeChar]
    rfl

theorem Text.encode_append (before after : List Char) :
    Text.encode (before ++ after) = Text.encode before ++ Text.encode after := by
  simp only [Text.encode_eq_flatMap, List.flatMap_append]

namespace Line

-- A field of an event, as it is given. An integer can be written in more than one way.
inductive EventField where
  | timestamp (numeral : List Char) (seconds : Int)
  | hostname (name : List Char)
  | priority (level : Priority)
  | alertType (kind : AlertType)
  | aggregationKey (key : List Char)
  | sourceTypeName (name : List Char)
  | tags (items : List (List Char))

namespace EventField

def text : EventField → List Char
  | .timestamp numeral _ => 'd' :: ':' :: numeral
  | .hostname name => 'h' :: ':' :: name
  | .priority level => 'p' :: ':' :: level.name.toList
  | .alertType kind => 't' :: ':' :: kind.name.toList
  | .aggregationKey key => 'k' :: ':' :: key
  | .sourceTypeName name => 's' :: ':' :: name
  | .tags items => '#' :: [','].intercalate items

def Valid : EventField → Prop
  | .timestamp numeral seconds =>
    Text.SignedNumeral numeral seconds ∧ -2 ^ 63 ≤ seconds ∧ seconds < 2 ^ 63
  | .hostname value | .aggregationKey value | .sourceTypeName value => '|' ∉ value
  | .priority _ | .alertType _ => True
  | .tags items => ∀ item ∈ items, ',' ∉ item ∧ '|' ∉ item

def last {β : Type} (value : EventField → Option β) (fields : List EventField) : Option β :=
  (fields.filterMap value).getLast?

def apply (e : Event) : EventField → Event
  | .timestamp _ seconds => { e with timestamp := some seconds }
  | .hostname name => { e with hostname := some (String.ofList name) }
  | .priority level => { e with priority := level }
  | .alertType kind => { e with alertType := kind }
  | .aggregationKey key => { e with aggregationKey := some (String.ofList key) }
  | .sourceTypeName name => { e with sourceTypeName := some (String.ofList name) }
  | .tags items => { e with tags := e.tags.extend (readTags ([','].intercalate items)) }

end EventField

def eventLine (title text : List Char) (fields : List EventField) : List Char :=
  eventMark ++ (Decimal.digitsOf (Text.byteLength title) ++
    ',' :: Decimal.digitsOf (Text.byteLength text) ++ ['\x7d', ':'] ++
    (title ++ '|' :: (text ++ fields.flatMap fun field => '|' :: field.text)))

def escapedBreak : List Char := ['\\', 'n']

structure Describes (rules : Rules) (source : Option String) (title text : List Char)
    (fields : List EventField) (e : Event) : Prop where
  title : e.title = String.ofList title
  text : ∃ parts, (∀ part ∈ parts, ¬ escapedBreak <:+: part) ∧
    text = escapedBreak.intercalate parts ∧ e.text = String.ofList (['\n'].intercalate parts)
  timestamp : e.timestamp =
    EventField.last (fun | .timestamp _ seconds => some seconds | _ => none) fields
  hostname : e.hostname =
    (EventField.last (fun | .hostname name => some (String.ofList name) | _ => none) fields).or
      (if rules.ignoreHost then none else source)
  priority : e.priority =
    (EventField.last (fun | .priority level => some level | _ => none) fields).getD .normal
  alertType : e.alertType =
    (EventField.last (fun | .alertType kind => some kind | _ => none) fields).getD .info
  aggregationKey : e.aggregationKey =
    EventField.last (fun | .aggregationKey key => some (String.ofList key) | _ => none) fields
  sourceTypeName : e.sourceTypeName =
    EventField.last (fun | .sourceTypeName name => some (String.ofList name) | _ => none) fields
  tags : ∀ tag, tag ∈ e.tags.items ↔ tag ∈ rules.defaultTags ∨
    ∃ items, .tags items ∈ fields ∧
      ∃ item ∈ items, Text.trim item ≠ [] ∧ tag = String.ofList (Text.trim item)
  source : e.source = source

def bar : UInt8 := 124

-- The lengths in the header of a line cut it at characters, with a bar after the title and a bar
-- or the end after the text.
def IsFramed (line : List Char) : Prop :=
  ∃ titleLength textLength body n m,
    line = eventMark ++ (titleLength ++ ',' :: textLength ++ ['\x7d', ':'] ++ body) ∧
    Text.Numeral titleLength n ∧ Text.Numeral textLength m ∧
    (Text.encode body)[n]? = some bar ∧
    Text.IsBoundary n body ∧ Text.IsBoundary (n + 1 + m) body ∧
    ((Text.encode body).drop (n + 1 + m) = [] ∨
      ((Text.encode body).drop (n + 1 + m)).head? = some bar)

-- The parts of a text around its escaped breaks. There is at least one, which may be empty.
theorem unescapeBreaks_parts (text : List Char) :
    ∃ first more, (∀ part ∈ first :: more, ¬ escapedBreak <:+: part) ∧
      text = escapedBreak.intercalate (first :: more) ∧
      unescapeBreaks text = ['\n'].intercalate (first :: more) := by
  fun_induction unescapeBreaks text with
  | case1 rest ih =>
    obtain ⟨first, more, hparts, htext, hbreaks⟩ := ih
    refine ⟨[], first :: more, ?_, ?_, ?_⟩
    · rw [List.forall_mem_cons]
      exact ⟨by decide, hparts⟩
    · rw [List.intercalate_cons_cons, ← htext]
      rfl
    · rw [List.intercalate_cons_cons, ← hbreaks]
      rfl
  | case2 c rest hbreak ih =>
    obtain ⟨first, more, hparts, htext, hbreaks⟩ := ih
    obtain ⟨hfirst, hmore⟩ := List.forall_mem_cons.mp hparts
    have hcons : ∀ sep : List Char,
        sep.intercalate ((c :: first) :: more) = c :: sep.intercalate (first :: more) := by
      intro sep
      cases more with
      | nil => simp
      | cons second more => simp only [List.intercalate_cons_cons, List.cons_append]
    refine ⟨c :: first, more, ?_, by rw [hcons, ← htext], by rw [hcons, ← hbreaks]⟩
    rw [List.forall_mem_cons]
    refine ⟨fun hinfix => ?_, hmore⟩
    rcases List.infix_cons_iff.mp hinfix with hprefix | hinfix
    · -- the part would begin with an escaped break, and so would the text
      obtain ⟨rfl, after, rfl⟩ := List.cons_prefix_cons.mp hprefix
      cases more with
      | nil => exact hbreak after rfl (by simpa using htext)
      | cons second more =>
        exact hbreak _ rfl (by rw [htext, List.intercalate_cons_cons]; rfl)
    · exact hfirst hinfix
  | case3 => exact ⟨[], [], by simp [escapedBreak], rfl, rfl⟩

theorem mem_readTags {list : List Char} {tag : String} :
    tag ∈ readTags list ↔
      ∃ item ∈ Text.pieces ',' list, Text.trim item ≠ [] ∧ tag = String.ofList (Text.trim item) := by
  simp only [readTags, List.mem_filterMap, List.mem_map, List.isEmpty_iff]
  constructor
  · rintro ⟨_, ⟨item, hitem, rfl⟩, htag⟩
    split at htag
    · cases htag
    · rename_i hne
      exact ⟨item, hitem, hne, (Option.some.inj htag).symm⟩
  · rintro ⟨item, hitem, hne, rfl⟩
    exact ⟨_, ⟨item, hitem, rfl⟩, if_neg hne⟩

-- No tags are written like one empty tag, which does not count.
theorem mem_readTags_intercalate {items : List (List Char)} (h : ∀ item ∈ items, ',' ∉ item)
    (tag : String) : tag ∈ readTags ([','].intercalate items) ↔
      ∃ item ∈ items, Text.trim item ≠ [] ∧ tag = String.ofList (Text.trim item) := by
  rw [mem_readTags]
  by_cases hnil : items = []
  · rw [hnil]
    simp [Text.pieces, Text.trim]
  · rw [Text.pieces_intercalate hnil h]

namespace EventField

theorem bar_notMem_text {field : EventField} (h : field.Valid) : '|' ∉ field.text := by
  cases field with
  | timestamp numeral seconds =>
    have hnumeral : '|' ∉ numeral := h.1.notMem (by decide) (by decide) (by decide)
    simpa [text] using hnumeral
  | hostname value => simpa [text, Valid] using h
  | aggregationKey value => simpa [text, Valid] using h
  | sourceTypeName value => simpa [text, Valid] using h
  | priority level => cases level <;> decide
  | alertType kind => cases kind <;> decide
  | tags items =>
    have hitems : '|' ∉ [','].intercalate items :=
      Text.notMem_intercalate (by decide) fun item hitem => (h item hitem).2
    simpa [text] using hitems

theorem readEventField_text {field : EventField} (h : field.Valid) (e : Event) :
    readEventField e field.text = .ok (field.apply e) := by
  cases field with
  | timestamp numeral seconds =>
    have hread := Text.readInteger64?_of_numeral h.1 h.2.1 h.2.2
    simp [readEventField, text, Text.cut, readAttribute, hread, apply]
  | hostname value => simp [readEventField, text, Text.cut, readAttribute, apply]
  | aggregationKey value => simp [readEventField, text, Text.cut, readAttribute, apply]
  | sourceTypeName value => simp [readEventField, text, Text.cut, readAttribute, apply]
  | priority level =>
    simp [readEventField, text, Text.cut, readAttribute, apply, Priority.ofName_name]
  | alertType kind =>
    simp [readEventField, text, Text.cut, readAttribute, apply, AlertType.ofName_name]
  | tags items => rfl

theorem foldlM_text {fields : List EventField} (h : ∀ field ∈ fields, field.Valid) (e : Event) :
    (fields.map text).foldlM readEventField e = .ok (fields.foldl apply e) := by
  induction fields generalizing e with
  | nil => rfl
  | cons field rest ih =>
    obtain ⟨hfield, hrest⟩ := List.forall_mem_cons.mp h
    rw [List.map_cons, List.foldlM_cons, readEventField_text hfield]
    exact ih hrest (field.apply e)

-- A part of the event that some fields replace is what the last of these make it.
theorem foldl_apply_last {β γ : Type} (part : Event → β) (value : EventField → Option γ)
    (f : γ → β) (h : ∀ e field, part (apply e field) = ((value field).map f).getD (part e))
    (fields : List EventField) (e : Event) :
    part (fields.foldl apply e) = ((last value fields).map f).getD (part e) := by
  induction fields using List.reverseRecOn with
  | nil => rfl
  | append_singleton fields field ih =>
    rw [List.foldl_append, List.foldl_cons, List.foldl_nil, h, last, List.filterMap_append]
    cases hvalue : value field with
    | none => simpa [hvalue, last] using ih
    | some v => simp [hvalue]

theorem mem_foldl_tags {fields : List EventField} (h : ∀ field ∈ fields, field.Valid) (e : Event)
    {tag : String} : tag ∈ (fields.foldl apply e).tags.items ↔ tag ∈ e.tags.items ∨
      ∃ items, .tags items ∈ fields ∧
        ∃ item ∈ items, Text.trim item ≠ [] ∧ tag = String.ofList (Text.trim item) := by
  induction fields generalizing e with
  | nil => simp
  | cons field rest ih =>
    obtain ⟨hfield, hrest⟩ := List.forall_mem_cons.mp h
    rw [List.foldl_cons, ih hrest]
    cases field with
    | tags items =>
      have hitems := mem_readTags_intercalate (fun item hitem => (hfield item hitem).1) tag
      simp only [apply, Tags.mem_extend, hitems, List.mem_cons, tags.injEq, exists_or,
        or_and_right, exists_eq_left]
      rw [or_comm (a := ∃ item ∈ items, _), or_assoc]
    | _ => simp [apply]

end EventField

theorem flatMap_fields (field : EventField) (rest : List EventField) :
    ((field :: rest).flatMap fun field => '|' :: field.text) =
      '|' :: ['|'].intercalate ((field :: rest).map EventField.text) := by
  induction rest generalizing field with
  | nil => simp
  | cons next rest ih =>
    rw [List.flatMap_cons, ih]
    simp only [List.map_cons, List.intercalate_cons_cons]
    simp

theorem readHeader_numerals {titleLength textLength : List Char} {n m : Nat}
    (htitle : Text.Numeral titleLength n) (htext : Text.Numeral textLength m) (hn : n < 2 ^ 64)
    (hm : m < 2 ^ 64) (hne : n ≠ 0) (body : List Char) :
    readHeader (titleLength ++ ',' :: textLength ++ ['\x7d', ':'] ++ body) = .ok (n, m, body) := by
  have hbrace : '\x7d' ∉ titleLength ++ ',' :: textLength := by
    have hbefore : '\x7d' ∉ titleLength := htitle.notMem (by decide) (by decide)
    have hafter : '\x7d' ∉ textLength := htext.notMem (by decide) (by decide)
    simp [hbefore, hafter]
  have hcomma : ',' ∉ titleLength := htitle.notMem (by decide) (by decide)
  have hreadTitle := Text.readWord64_eq_ok_iff.mpr ⟨htitle, hn⟩
  have hreadText := Text.readWord64_eq_ok_iff.mpr ⟨htext, hm⟩
  simp only [readHeader, Text.cutAt_append hbrace, Text.cut_append hcomma, hreadTitle, hreadText]
  simp [hne]

theorem readHeader_eq_ok {header : List Char} {n m : Nat} {body : List Char}
    (h : readHeader header = .ok (n, m, body)) :
    ∃ titleLength textLength,
      header = titleLength ++ ',' :: textLength ++ ['\x7d', ':'] ++ body ∧
      Text.Numeral titleLength n ∧ Text.Numeral textLength m := by
  simp only [readHeader] at h
  split at h
  case h_2 => cases h
  case h_1 lengths rest hterminator =>
    split at h
    case h_2 => cases h
    case h_1 titleLength textLength hseparator =>
      split at h
      case h_2 => cases h
      case h_1 title htitle =>
        split at h
        case h_2 => cases h
        case h_1 text htext =>
          split at h
          case isTrue hzero => cases h
          case isFalse hzero =>
            cases h
            rw [Text.append_of_cutAt hterminator, Text.append_of_cut hseparator]
            exact ⟨titleLength, textLength, by simp,
              (Text.readWord64_eq_ok_iff.mp htitle).1, (Text.readWord64_eq_ok_iff.mp htext).1⟩

theorem frameEvent_eventLine {title text : List Char} {fields : List EventField}
    (hne : title ≠ []) (htitle : Text.byteLength title < 2 ^ 64)
    (htext : Text.byteLength text < 2 ^ 64) (hfields : ∀ field ∈ fields, field.Valid) :
    frameEvent (Decimal.digitsOf (Text.byteLength title) ++
      ',' :: Decimal.digitsOf (Text.byteLength text) ++ ['\x7d', ':'] ++
      (title ++ '|' :: (text ++ fields.flatMap fun field => '|' :: field.text))) =
      .ok (title, text, fields.map EventField.text) := by
  have hpos : Text.byteLength title ≠ 0 := by
    cases title with
    | nil => exact absurd rfl hne
    | cons c rest =>
      have := c.utf8Size_pos
      simp only [Text.byteLength]
      omega
  have hheader := readHeader_numerals (Text.numeral_digitsOf _) (Text.numeral_digitsOf _) htitle
    htext hpos (title ++ '|' :: (text ++ fields.flatMap fun field => '|' :: field.text))
  simp only [frameEvent, hheader, bind, Except.bind, Text.cutBytes_append]
  cases fields with
  | nil => rfl
  | cons field rest =>
    rw [flatMap_fields]
    simp only [Except.ok.injEq, Prod.mk.injEq, true_and]
    refine Text.pieces_intercalate (by simp) fun piece hpiece => ?_
    obtain ⟨field, hfield, rfl⟩ := List.mem_map.mp hpiece
    exact EventField.bar_notMem_text (hfields field hfield)

theorem frameEvent_eq_ok {header title text : List Char} {fields : List (List Char)}
    (h : frameEvent header = .ok (title, text, fields)) :
    ∃ n m rest, readHeader header = .ok (n, m, title ++ '|' :: (text ++ rest)) ∧
      Text.byteLength title = n ∧ Text.byteLength text = m ∧
      (rest = [] ∨ rest.head? = some '|') := by
  simp only [frameEvent] at h
  cases hheader : readHeader header with
  | error fault => simp [hheader, bind, Except.bind] at h
  | ok read =>
    obtain ⟨n, m, body⟩ := read
    simp only [hheader, bind, Except.bind] at h
    split at h
    case h_2 => cases h
    case h_1 title' afterTitle htitle =>
      obtain ⟨rfl, hn⟩ := Text.cutBytes_some htitle
      split at h
      case h_2 => cases h
      case h_1 afterBar =>
        split at h
        case h_2 => cases h
        case h_1 text' rest htext =>
          obtain ⟨rfl, hm⟩ := Text.cutBytes_some htext
          split at h
          case h_1 =>
            cases h
            exact ⟨n, m, [], rfl, hn, hm, .inl rfl⟩
          case h_2 fields' =>
            cases h
            exact ⟨n, m, '|' :: fields', rfl, hn, hm, .inr rfl⟩
          case h_3 => cases h

theorem getD_map_some {β : Type} (x y : Option β) : (x.map some).getD y = x.or y := by
  cases x <;> rfl

theorem describes_foldl (rules : Rules) (source : Option String) (title text : List Char)
    {fields : List EventField} (hfields : ∀ field ∈ fields, field.Valid) :
    let plain : Event := ⟨String.ofList title, String.ofList (unescapeBreaks text), none, none,
      .normal, .info, none, none, .empty, none⟩
    let e := fields.foldl EventField.apply plain
    Describes rules source title text fields
      { e with
        tags := e.tags.extend rules.defaultTags
        hostname := if rules.ignoreHost then e.hostname else e.hostname.or source
        source } := by
  intro plain e
  -- A part of the event is replaced by no field, by the last field of a sort, or by the last one
  -- where there is any.
  have hkept (part : Event → String)
      (h : ∀ e field, part (EventField.apply e field) = part e) : part e = part plain := by
    rw [EventField.foldl_apply_last part (fun _ => none) id h fields plain]
    simp [EventField.last]
  have hgiven {γ : Type} (part : Event → Option γ) (value : EventField → Option γ)
      (h : ∀ e field, part (EventField.apply e field) = ((value field).map some).getD (part e)) :
      part e = (EventField.last value fields).or (part plain) :=
    (EventField.foldl_apply_last part value some h fields plain).trans (getD_map_some _ _)
  have hchosen {γ : Type} (part : Event → γ) (value : EventField → Option γ)
      (h : ∀ e field, part (EventField.apply e field) = ((value field).map id).getD (part e)) :
      part e = (EventField.last value fields).getD (part plain) := by
    rw [EventField.foldl_apply_last part value id h fields plain, Option.map_id]
    rfl
  obtain ⟨first, more, hparts, htext, hbreaks⟩ := unescapeBreaks_parts text
  constructor
  case title => exact hkept Event.title fun e field => by cases field <;> rfl
  case text =>
    refine ⟨first :: more, hparts, htext, ?_⟩
    rw [← hbreaks]
    exact hkept Event.text fun e field => by cases field <;> rfl
  case timestamp =>
    exact (hgiven Event.timestamp _ fun e field => by cases field <;> rfl).trans Option.or_none
  case hostname =>
    have hhost := hgiven Event.hostname (fun | .hostname name => some (String.ofList name) | _ => none)
      fun e field => by cases field <;> rfl
    rw [show plain.hostname = none from rfl, Option.or_none] at hhost
    dsimp only
    rw [hhost]
    split
    · exact Option.or_none.symm
    · rfl
  case priority => exact hchosen Event.priority _ fun e field => by cases field <;> rfl
  case alertType => exact hchosen Event.alertType _ fun e field => by cases field <;> rfl
  case aggregationKey =>
    exact (hgiven Event.aggregationKey _ fun e field => by cases field <;> rfl).trans Option.or_none
  case sourceTypeName =>
    exact (hgiven Event.sourceTypeName _ fun e field => by cases field <;> rfl).trans Option.or_none
  case tags =>
    intro tag
    rw [Tags.mem_extend, EventField.mem_foldl_tags hfields]
    simp [plain, Tags.empty]
  case source => rfl

theorem read_eventLine (rules : Rules) (source : Option String) {title text : List Char}
    {fields : List EventField} (hne : title ≠ []) (htitle : Text.byteLength title < 2 ^ 64)
    (htext : Text.byteLength text < 2 ^ 64) (hfields : ∀ field ∈ fields, field.Valid) :
    ∃ e, read rules source (eventLine title text fields) = .ok (.event e) ∧
      Describes rules source title text fields e := by
  have hframe := frameEvent_eventLine hne htitle htext hfields
  have hread : ∀ plain, (fields.map EventField.text).foldlM readEventField plain =
      .ok (fields.foldl EventField.apply plain) := EventField.foldlM_text hfields
  simp only [eventLine, read, Text.dropStart?_append, readEvent, hframe, bind, Except.bind, hread]
  exact ⟨_, rfl, describes_foldl rules source title text hfields⟩

theorem encode_bar (rest : List Char) : Text.encode ('|' :: rest) = bar :: Text.encode rest := by
  rw [Text.encode_eq_flatMap, Text.encode_eq_flatMap]
  rfl

theorem isFramed_of_readEvent {rules : Rules} {source : Option String} {header : List Char}
    {e : Event} (h : readEvent rules source header = .ok e) : IsFramed (eventMark ++ header) := by
  cases hframe : frameEvent header with
  | error fault => simp [readEvent, hframe, bind, Except.bind] at h
  | ok framed =>
    obtain ⟨title, text, fields⟩ := framed
    obtain ⟨n, m, rest, hheader, rfl, rfl, hrest⟩ := frameEvent_eq_ok hframe
    obtain ⟨titleLength, textLength, rfl, htitle, htext⟩ := readHeader_eq_ok hheader
    have hbytes : Text.encode (title ++ '|' :: (text ++ rest)) =
        Text.encode title ++ bar :: (Text.encode text ++ Text.encode rest) := by
      rw [Text.encode_append, encode_bar, Text.encode_append]
    have hafter : (Text.encode (title ++ '|' :: (text ++ rest))).drop
        (Text.byteLength title + 1 + Text.byteLength text) = Text.encode rest := by
      rw [hbytes, ← Text.length_encode, ← Text.length_encode, Nat.add_assoc, List.drop_length_add_append,
        Nat.add_comm 1, List.drop_succ_cons, List.drop_left]
    refine ⟨titleLength, textLength, _, _, _, rfl, htitle, htext, ?_, ⟨title, _, rfl, rfl⟩,
      ⟨title ++ '|' :: text, rest, by simp, ?_⟩, ?_⟩
    · rw [hbytes, ← Text.length_encode, List.getElem?_append_right (Nat.le_refl _), Nat.sub_self]
      rfl
    · rw [Text.byteLength_append]
      simp only [Text.byteLength]
      rw [show '|'.utf8Size = 1 from rfl, Nat.add_assoc]
    · rw [hafter]
      rcases hrest with rfl | hbar
      · exact .inl (Text.encode_eq_flatMap [])
      · cases rest with
        | nil => cases hbar
        | cons c rest =>
          cases hbar
          exact .inr (by rw [encode_bar]; rfl)

theorem isFramed_of_read {rules : Rules} {source : Option String} {line : List Char} {e : Event}
    (h : read rules source line = .ok (.event e)) : IsFramed line := by
  unfold read at h
  split at h
  · rename_i header hmark
    rw [Text.append_of_dropStart? hmark]
    split at h
    · cases h
      rename_i hevent
      exact isFramed_of_readEvent hevent
    · cases h
  · split at h
    · cases h
    · cases hmetric : readMetric rules source line <;> simp [hmetric, Except.map] at h

theorem event_lines_framed (rules : Rules) (source : Option String) :
    (∀ title text fields, title ≠ [] → Text.byteLength title < 2 ^ 64 →
      Text.byteLength text < 2 ^ 64 → (∀ field ∈ fields, field.Valid) →
      ∃ e, read rules source (eventLine title text fields) = .ok (.event e) ∧
        Describes rules source title text fields e) ∧
    ∀ line e, read rules source line = .ok (.event e) → IsFramed line :=
  ⟨fun _ _ _ hne htitle htext hfields => read_eventLine rules source hne htitle htext hfields,
    fun _ _ h => isFramed_of_read h⟩

-- Title and text look like the header and the separators, and the time is given twice.
theorem odd_event_framed :
    let title := ['a', '|', 'é']
    let text := ['\x7d', ':', '\\', 'n', '|', 'd', ':']
    let fields : List EventField := [.timestamp ['-', '1'] (-1), .tags [[' ', 'b', ':', '1'], []],
      .hostname ['x', ':'], .timestamp ['+', '0', '7'] 7]
    let line := eventLine title text fields
    (title ≠ [] ∧ Text.byteLength title < 2 ^ 64 ∧ Text.byteLength text < 2 ^ 64 ∧
      ∀ field ∈ fields, field.Valid) ∧
    line = "_e\x7b4,7\x7d:a|é|\x7d:\\n|d:|d:-1|# b:1,|h:x:|d:+07".toList ∧
    (∃ e, read {} none line = .ok (.event e) ∧ Describes {} none title text fields e) ∧
    IsFramed line := by
  intro title text fields line
  have htitle : Text.byteLength title < 2 ^ 64 := by decide
  have htext : Text.byteLength text < 2 ^ 64 := by decide
  have hfields : ∀ field ∈ fields, field.Valid := by
    have hone : Decimal.AllDigits ['1'] := by simp [Decimal.AllDigits]
    have hseven : Decimal.AllDigits ['0', '7'] := by simp [Decimal.AllDigits]
    simp only [fields, List.forall_mem_cons, EventField.Valid]
    exact ⟨⟨.minus ['1'] (by decide) hone, by decide, by decide⟩, by decide, by decide,
      ⟨.natural _ 7 (.plus ['0', '7'] (by decide) hseven), by decide, by decide⟩, by simp⟩
  obtain ⟨hread, hframed⟩ := event_lines_framed {} none
  obtain ⟨e, he, hdescribes⟩ := hread title text fields (by decide) htitle htext hfields
  exact ⟨⟨by decide, htitle, htext, hfields⟩, by decide, ⟨e, he, hdescribes⟩, hframed line e he⟩

end Line

end StatsDaemon
