import StatsDaemon.Batch.Json
import StatsDaemon.Proofs.Batch.Numbers
import StatsDaemon.Proofs.Document
import StatsDaemon.Proofs.Json.RoundTrip
import StatsDaemon.Proofs.Tags

namespace StatsDaemon

open Document

namespace Json

theorem natural?_ofNat (n : ℕ) : natural? (Json.ofNat n) = some n :=
  if_pos (Int.natCast_nonneg n)

end Json

theorem Tags.ofJson?_toJson (tags : Tags) : Tags.ofJson? tags.toJson = some tags := by
  have htexts : texts? (Json.strings tags.items) = some tags.items := stands_json.texts tags.items
  rw [ofJson?, toJson, htexts, Option.map_some, ofList, empty_extend_items]

theorem Series.ofFields?_some (s : Series) :
    Series.ofFields? (some (.str s.name)) (some s.tags.toJson) = some s := by
  have htext : required text? (some (Json.str s.name)) = some s.name := rfl
  have htags : required Tags.ofJson? (some s.tags.toJson) = some s.tags := s.tags.ofJson?_toJson
  rw [ofFields?, htext, htags]
  rfl

theorem FlushedCounter.ofJson?_toJson (c : FlushedCounter Binary64) :
    FlushedCounter.ofJson? c.toJson = some c := by
  have hrecord : record? ["name", "tags", "delta", "per_second", "total"] c.toJson =
      some [some (.str c.series.name), some c.series.tags.toJson, some (.real c.delta),
        some (.real c.perSecond), some (.real c.total)] :=
    record?_obj (by decide) rfl rfl
  rw [FlushedCounter.ofJson?, hrecord, Option.bind_eq_bind, Option.bind_some]
  simp only [Series.ofFields?_some]
  rfl

theorem GaugeReading.ofJson?_toJson (g : GaugeReading Binary64) :
    GaugeReading.ofJson? g.toJson = some g := by
  have hrecord : record? ["name", "tags", "value"] g.toJson =
      some [some (.str g.series.name), some g.series.tags.toJson, some (.real g.value)] :=
    record?_obj (by decide) rfl rfl
  rw [GaugeReading.ofJson?, hrecord, Option.bind_eq_bind, Option.bind_some]
  simp only [Series.ofFields?_some]
  rfl

theorem SetReading.ofJson?_toJson (s : SetReading) : SetReading.ofJson? s.toJson = some s := by
  have hrecord : record? ["name", "tags", "cardinality"] s.toJson =
      some [some (.str s.series.name), some s.series.tags.toJson, some (.ofNat s.cardinality)] :=
    record?_obj (by decide) rfl rfl
  rw [SetReading.ofJson?, hrecord, Option.bind_eq_bind, Option.bind_some]
  simp only [Series.ofFields?_some, required, Json.natural?_ofNat]
  rfl

theorem Percentile.ofJson?_toJson (p : Percentile Binary64) :
    Percentile.ofJson? p.toJson = some p := by
  have hrecord : record? ["threshold", "bound", "count", "mean", "sum", "sum_squares"] p.toJson =
      some [some (.real p.threshold), some (.real p.bound), some (.ofNat p.count),
        some (.real p.mean), some (.real p.sum), some (.real p.sumSquares)] :=
    record?_obj (by decide) rfl rfl
  rw [Percentile.ofJson?, hrecord, Option.bind_eq_bind, Option.bind_some]
  simp only [required, Json.natural?_ofNat]
  rfl

theorem FlushedTimer.ofJson?_toJson (t : FlushedTimer Binary64) :
    FlushedTimer.ofJson? t.toJson = some t := by
  have hrecord : record?
      ["name", "tags", "count", "sampled_count", "per_second", "sum", "sum_squares", "min", "max",
        "mean", "median", "stddev", "percentiles"] t.toJson =
      some [some (.str t.series.name), some t.series.tags.toJson, some (.ofNat t.summary.count),
        some (.real t.summary.sampledCount), some (.real t.summary.perSecond),
        some (.real t.summary.sum), some (.real t.summary.sumSquares), some (.real t.summary.least),
        some (.real t.summary.greatest), some (.real t.summary.mean),
        some (.real t.summary.median), some (.real t.summary.deviation),
        some (.arr (t.summary.percentiles.map Percentile.toJson))] :=
    record?_obj (by decide) rfl rfl
  have hcount : required natural? (some (Json.ofNat t.summary.count)) = some t.summary.count :=
    Json.natural?_ofNat _
  have hpercentiles : required (list? Percentile.ofJson?)
      (some (Json.arr (t.summary.percentiles.map Percentile.toJson))) =
        some t.summary.percentiles :=
    list?_map rfl fun p _ => p.ofJson?_toJson
  obtain ⟨fields, hobj⟩ : ∃ fields, t.toJson = .obj fields := ⟨_, rfl⟩
  rw [hobj] at hrecord ⊢
  rw [FlushedTimer.ofJson?, hrecord]
  show (Series.ofFields? _ _).bind _ = _
  rw [Series.ofFields?_some, Option.bind_some]
  show (required natural? _).bind _ = _
  rw [hcount, Option.bind_some]
  show (required (list? Percentile.ofJson?) _).bind _ = _
  rw [hpercentiles]
  rfl

def Event.Timed (e : Event) : Prop :=
  ∀ t ∈ e.timestamp, -2 ^ 63 ≤ t ∧ t < 2 ^ 63

theorem Event.ofJson?_toJson {e : Event} (h : e.Timed) : Event.ofJson? e.toJson = some e := by
  have hrecord : record? fieldNames e.toJson =
      some [some (.str e.title), some (.str e.text), e.timestamp.map Json.int,
        e.hostname.map Json.str, some (.str e.priority.name), some (.str e.alertType.name),
        e.aggregationKey.map Json.str, e.sourceTypeName.map Json.str, some e.tags.toJson,
        e.source.map Json.str] := by
    refine record?_obj (by decide) rfl ?_
    simp only [toJson, fieldNames, List.zip_cons_cons, List.zip_nil_right, present_cons,
      Json.field?, List.append_assoc, present_nil, List.append_nil]
    rfl
  have htimestamp : optional integer? (e.timestamp.map Json.int) = some e.timestamp :=
    optional_map fun t ht => ⟨rfl, if_pos (h t ht).2⟩
  have htext (value : Option String) : optional text? (value.map Json.str) = some value :=
    optional_map fun _ _ => ⟨rfl, rfl⟩
  have hpriority : choose? Priority.ofName? (Json.str e.priority.name) = some e.priority :=
    e.priority.ofName_name
  have halert : choose? AlertType.ofName? (Json.str e.alertType.name) = some e.alertType :=
    e.alertType.ofName_name
  rw [Event.ofJson?, hrecord, Option.bind_eq_bind, Option.bind_some]
  simp only [htimestamp, htext, orElse, hpriority, halert, e.tags.ofJson?_toJson]
  rfl

theorem Batch.ofJson?_toJson {b : Batch Binary64} (h : ∀ e ∈ b.events, e.Timed) :
    Batch.ofJson? b.toJson = some b := by
  have hrecord : record? ["timestamp", "counters", "gauges", "sets", "timers", "events"] b.toJson =
      some [some (.ofNat b.timestamp), some (.arr (b.counters.map FlushedCounter.toJson)),
        some (.arr (b.gauges.map GaugeReading.toJson)), some (.arr (b.sets.map SetReading.toJson)),
        some (.arr (b.timers.map FlushedTimer.toJson)), some (.arr (b.events.map Event.toJson))] :=
    record?_obj (by decide) rfl rfl
  have hlist {β : Type} {write : β → Json} {read : Json → Option β} {xs : List β}
      (h : ∀ x ∈ xs, read (write x) = some x) : list? read (Json.arr (xs.map write)) = some xs :=
    list?_map rfl h
  rw [Batch.ofJson?, hrecord, Option.bind_eq_bind, Option.bind_some]
  simp only [required, Json.natural?_ofNat, hlist fun c _ => FlushedCounter.ofJson?_toJson c,
    hlist fun g _ => GaugeReading.ofJson?_toJson g, hlist fun s _ => SetReading.ofJson?_toJson s,
    hlist fun t _ => FlushedTimer.ofJson?_toJson t,
    hlist fun e he => Event.ofJson?_toJson (h e he)]
  rfl

namespace Json

theorem writable_ofNat {n : ℕ} (h : n < 2 ^ 64) : Writable (Json.ofNat n) :=
  .int ⟨by rw [minInteger]; omega, by rw [maxNatural]; omega⟩

theorem writable_strings (items : List String) : Writable (Json.strings items) :=
  .arr (List.forall_mem_map.mpr fun s _ => .str s)

theorem writable_arr {β : Type} {items : List β} {f : β → Json} (h : ∀ x ∈ items, Writable (f x)) :
    Writable (.arr (items.map f)) :=
  .arr (List.forall_mem_map.mpr h)

theorem writable_field? (name : String) {value : Option Json} (h : ∀ j ∈ value, Writable j) :
    ∀ field ∈ Json.field? name value, Writable field.2 := by
  cases value with
  | none => exact List.forall_mem_nil _
  | some j => exact List.forall_mem_singleton.mpr (h j rfl)

end Json

theorem Series.writable_fields (s : Series) : ∀ field ∈ s.fields, Json.Writable field.2 := by
  simp only [fields, List.forall_mem_cons]
  exact ⟨.str _, Json.writable_strings _, List.forall_mem_nil _⟩

theorem Event.writable_toJson {e : Event} (h : e.Timed) : Json.Writable e.toJson := by
  have htimestamp : ∀ j ∈ e.timestamp.map Json.int, Json.Writable j := by
    intro j hj
    obtain ⟨t, ht, rfl⟩ := Option.map_eq_some_iff.mp hj
    obtain ⟨hlow, hhigh⟩ := h t ht
    exact .int ⟨by rw [Json.minInteger]; omega, by rw [Json.maxNatural]; omega⟩
  have htext (value : Option String) : ∀ j ∈ value.map Json.str, Json.Writable j := by
    intro j hj
    obtain ⟨s, -, rfl⟩ := Option.map_eq_some_iff.mp hj
    exact .str s
  refine .obj ?_
  simp only [List.forall_mem_append, List.forall_mem_cons]
  exact ⟨⟨⟨⟨⟨⟨⟨⟨.str _, .str _, List.forall_mem_nil _⟩,
    Json.writable_field? _ htimestamp⟩, Json.writable_field? _ (htext _)⟩,
    .str _, .str _, List.forall_mem_nil _⟩, Json.writable_field? _ (htext _)⟩,
    Json.writable_field? _ (htext _)⟩, Json.writable_strings _, List.forall_mem_nil _⟩,
    Json.writable_field? _ (htext _)⟩

theorem Percentile.writable_toJson {p : Percentile Binary64}
    (h : ∀ x ∈ p.numbers, x.isFinite = true) (hcount : p.count < 2 ^ 64) :
    Json.Writable p.toJson := by
  simp only [numbers, List.forall_mem_cons] at h
  obtain ⟨hthreshold, hbound, hmean, hsum, hsquares, -⟩ := h
  refine .obj ?_
  simp only [List.forall_mem_cons]
  exact ⟨.real hthreshold, .real hbound, Json.writable_ofNat hcount, .real hmean, .real hsum,
    .real hsquares, List.forall_mem_nil _⟩

theorem FlushedTimer.writable_toJson {t : FlushedTimer Binary64}
    (h : ∀ x ∈ t.summary.numbers, x.isFinite = true)
    (hcounts : ∀ n ∈ t.summary.count :: t.summary.percentiles.map Percentile.count, n < 2 ^ 64) :
    Json.Writable t.toJson := by
  obtain ⟨hfigures, hcuts⟩ := List.forall_mem_append.mp h
  obtain ⟨hcount, hinside⟩ := List.forall_mem_cons.mp hcounts
  simp only [List.forall_mem_cons] at hfigures
  obtain ⟨hsampled, hrate, hsum, hsquares, hleast, hgreatest, hmean, hmedian, hdeviation, -⟩ :=
    hfigures
  have hpercentiles : Json.Writable (.arr (t.summary.percentiles.map Percentile.toJson)) :=
    Json.writable_arr fun p hp => p.writable_toJson
      (fun x hx => hcuts x (List.mem_flatMap.mpr ⟨p, hp, hx⟩))
      (hinside _ (List.mem_map_of_mem hp))
  refine .obj (List.forall_mem_append.mpr ⟨t.series.writable_fields, ?_⟩)
  simp only [List.forall_mem_cons]
  exact ⟨Json.writable_ofNat hcount, .real hsampled, .real hrate, .real hsum, .real hsquares,
    .real hleast, .real hgreatest, .real hmean, .real hmedian, .real hdeviation, hpercentiles,
    List.forall_mem_nil _⟩

-- Batches that their text keeps: finite numbers, and counts and times that are words.
structure Batch.Writable (b : Batch Binary64) : Prop where
  finite : ∀ x ∈ b.numbers, x.isFinite = true
  counts : b.Countable
  timestamp : b.timestamp < 2 ^ 64
  events : ∀ e ∈ b.events, e.Timed

theorem Batch.writable_toJson {b : Batch Binary64} (h : b.Writable) : Json.Writable b.toJson := by
  obtain ⟨hnumbers, htimers⟩ := List.forall_mem_append.mp h.finite
  obtain ⟨hcounters, hgauges⟩ := List.forall_mem_append.mp hnumbers
  obtain ⟨hsets, hcounts⟩ := List.forall_mem_append.mp h.counts
  refine .obj ?_
  simp only [List.forall_mem_cons]
  refine ⟨Json.writable_ofNat h.timestamp, Json.writable_arr fun c hc => .obj ?_,
    Json.writable_arr fun g hg => .obj ?_, Json.writable_arr fun s hs => .obj ?_,
    Json.writable_arr fun t ht => t.writable_toJson
      (fun x hx => htimers x (List.mem_flatMap.mpr ⟨t, ht, hx⟩))
      (fun n hn => hcounts n (List.mem_flatMap.mpr ⟨t, ht, hn⟩)),
    Json.writable_arr fun e he => Event.writable_toJson (h.events e he), List.forall_mem_nil _⟩
  · have hfigures := fun x hx => hcounters x (List.mem_flatMap.mpr ⟨c, hc, hx⟩)
    simp only [FlushedCounter.numbers, List.forall_mem_cons] at hfigures
    obtain ⟨hdelta, hrate, htotal, -⟩ := hfigures
    simp only [List.forall_mem_append, List.forall_mem_cons]
    exact ⟨c.series.writable_fields, .real hdelta, .real hrate, .real htotal, List.forall_mem_nil _⟩
  · simp only [List.forall_mem_append, List.forall_mem_cons]
    exact ⟨g.series.writable_fields, .real (hgauges _ (List.mem_map_of_mem hg)),
      List.forall_mem_nil _⟩
  · simp only [List.forall_mem_append, List.forall_mem_cons]
    exact ⟨s.series.writable_fields, Json.writable_ofNat (hsets _ (List.mem_map_of_mem hs)),
      List.forall_mem_nil _⟩

theorem batches_read_back :
    (∀ b : Batch Binary64, b.Writable →
      (Json.parse? b.toJson.text).bind Batch.ofJson? = some b) ∧
    ∀ e : Event, e.Timed → (Json.parse? e.toJson.text).bind Event.ofJson? = some e := by
  constructor
  · intro b h
    rw [Json.parse?_text (Batch.writable_toJson h), Option.bind_some, Batch.ofJson?_toJson h.events]
  · intro e h
    rw [Json.parse?_text (Event.writable_toJson h), Option.bind_some, Event.ofJson?_toJson h]

def deployment : Event where
  title := "dep\"loy\\"
  text := "line\n\u2028\x01"
  timestamp := some (-1)
  priority := .low
  tags := Tags.ofList ["env:prod", "canary"]
  source := some "10.0.0.1"

def mixed : Batch Binary64 where
  timestamp := 1700000000
  counters := [{ series := ⟨"hits", Tags.ofList ["a:b"]⟩, delta := 5, perSecond := 1 / 2, total := 5 }]
  gauges := [{ series := ⟨"\u00fcber", .empty⟩, value := .negZero }]
  sets := [{ series := ⟨"users", .empty⟩, cardinality := 3 }]
  timers :=
    [{ series := ⟨"latency", .empty⟩
       summary :=
        { count := 1, sampledCount := 1, perSecond := 1, sum := 3, sumSquares := 9, least := 3,
          greatest := 3, mean := 3, median := 3, deviation := 0, percentiles := [⟨90, 3, 1, 3, 3, 9⟩] } }]
  events := [deployment]

theorem mixed_read_back :
    (mixed.Writable ∧ (Json.parse? mixed.toJson.text).bind Batch.ofJson? = some mixed) ∧
      deployment.Timed ∧
      (Json.parse? deployment.toJson.text).bind Event.ofJson? = some deployment := by
  have htimed : deployment.Timed := by
    intro t ht
    obtain rfl := Option.some.inj ht
    decide
  have hwritable : mixed.Writable :=
    { finite := by decide +kernel
      counts := by decide
      timestamp := by decide
      events := List.forall_mem_singleton.mpr htimed }
  exact ⟨⟨hwritable, batches_read_back.1 mixed hwritable⟩, htimed,
    batches_read_back.2 deployment htimed⟩

end StatsDaemon
