import StatsDaemon.Batch.Json
import StatsDaemon.Graphite.Format
import StatsDaemon.Json.Writer
import StatsDaemon.Proofs.Batch.Numbers
import StatsDaemon.Proofs.Decimal.RoundTrip

namespace StatsDaemon

inductive Json.Only (P : Binary64 → Prop) : Json → Prop
  | bool (b : Bool) : Only P (.bool b)
  | int (i : Int) : Only P (.int i)
  | real {x : Binary64} (h : P x) : Only P (.real x)
  | str (s : String) : Only P (.str s)
  | arr {items : List Json} (h : ∀ item ∈ items, Only P item) : Only P (.arr items)
  | obj {fields : List (String × Json)} (h : ∀ field ∈ fields, Only P field.2) :
      Only P (.obj fields)

section Written

variable {P : Binary64 → Prop}

theorem Series.only_fields (s : Series) : ∀ field ∈ s.fields, Json.Only P field.2 := by
  simp only [fields, List.forall_mem_cons]
  refine ⟨.str _, .arr fun item hitem => ?_, List.forall_mem_nil _⟩
  obtain ⟨tag, -, rfl⟩ := List.mem_map.mp hitem
  exact .str tag

theorem Json.only_field? (name : String) {value : Option Json} (h : ∀ j ∈ value, Only P j) :
    ∀ field ∈ Json.field? name value, Only P field.2 := by
  cases value with
  | none => exact List.forall_mem_nil _
  | some j =>
    intro field hfield
    rw [List.mem_singleton.mp hfield]
    exact h j rfl

theorem Event.only_toJson (e : Event) : Json.Only P e.toJson := by
  have htags : Json.Only P e.tags.toJson := .arr fun item hitem => by
    obtain ⟨tag, -, rfl⟩ := List.mem_map.mp hitem
    exact .str tag
  have hmap : ∀ {β : Type} (value : Option β) (f : β → Json), (∀ b, Json.Only P (f b)) →
      ∀ j ∈ value.map f, Json.Only P j := by
    intro β value f hf j hj
    obtain ⟨b, -, rfl⟩ := Option.map_eq_some_iff.mp hj
    exact hf b
  refine .obj ?_
  simp only [List.forall_mem_append, List.forall_mem_cons]
  exact ⟨⟨⟨⟨⟨⟨⟨⟨.str _, .str _, List.forall_mem_nil _⟩,
    Json.only_field? _ (hmap _ _ .int)⟩, Json.only_field? _ (hmap _ _ .str)⟩,
    .str _, .str _, List.forall_mem_nil _⟩, Json.only_field? _ (hmap _ _ .str)⟩,
    Json.only_field? _ (hmap _ _ .str)⟩, htags, List.forall_mem_nil _⟩,
    Json.only_field? _ (hmap _ _ .str)⟩

theorem Percentile.only_toJson {p : Percentile Binary64} (h : ∀ x ∈ p.numbers, P x) :
    Json.Only P p.toJson := by
  simp only [numbers, List.forall_mem_cons] at h
  obtain ⟨hthreshold, hbound, hmean, hsum, hsquares, -⟩ := h
  refine .obj ?_
  simp only [List.forall_mem_cons]
  exact ⟨.real hthreshold, .real hbound, .int _, .real hmean, .real hsum, .real hsquares,
    List.forall_mem_nil _⟩

theorem FlushedTimer.only_toJson {t : FlushedTimer Binary64} (h : ∀ x ∈ t.summary.numbers, P x) :
    Json.Only P t.toJson := by
  obtain ⟨hfigures, hcuts⟩ := List.forall_mem_append.mp h
  simp only [List.forall_mem_cons] at hfigures
  obtain ⟨hcount, hrate, hsum, hsquares, hleast, hgreatest, hmean, hmedian, hdeviation, -⟩ :=
    hfigures
  have hpercentiles : Json.Only P (.arr (t.summary.percentiles.map Percentile.toJson)) := by
    refine .arr fun item hitem => ?_
    obtain ⟨p, hp, rfl⟩ := List.mem_map.mp hitem
    exact Percentile.only_toJson fun x hx => hcuts x (List.mem_flatMap.mpr ⟨p, hp, hx⟩)
  refine .obj (List.forall_mem_append.mpr ⟨t.series.only_fields, ?_⟩)
  simp only [List.forall_mem_cons]
  exact ⟨.int _, .real hcount, .real hrate, .real hsum, .real hsquares, .real hleast,
    .real hgreatest, .real hmean, .real hmedian, .real hdeviation, hpercentiles,
    List.forall_mem_nil _⟩

theorem Json.only_arr {β : Type} {items : List β} {f : β → Json}
    (h : ∀ item ∈ items, Only P (f item)) : Only P (.arr (items.map f)) :=
  .arr (List.forall_mem_map.mpr h)

theorem Batch.only_toJson {b : Batch Binary64} (h : ∀ x ∈ b.numbers, P x) :
    Json.Only P b.toJson := by
  obtain ⟨hnumbers, htimers⟩ := List.forall_mem_append.mp h
  obtain ⟨hcounters, hgauges⟩ := List.forall_mem_append.mp hnumbers
  refine .obj ?_
  simp only [List.forall_mem_cons]
  refine ⟨.int _, Json.only_arr fun c hc => .obj ?_, Json.only_arr fun g hg => .obj ?_,
    Json.only_arr fun s _ => .obj ?_, Json.only_arr fun t ht => ?_,
    Json.only_arr fun e _ => e.only_toJson, List.forall_mem_nil _⟩
  · have hfigures := fun x hx => hcounters x (List.mem_flatMap.mpr ⟨c, hc, hx⟩)
    simp only [FlushedCounter.numbers, List.forall_mem_cons] at hfigures
    obtain ⟨hdelta, hrate, htotal, -⟩ := hfigures
    refine List.forall_mem_append.mpr ⟨c.series.only_fields, ?_⟩
    simp only [List.forall_mem_cons]
    exact ⟨.real hdelta, .real hrate, .real htotal, List.forall_mem_nil _⟩
  · refine List.forall_mem_append.mpr ⟨g.series.only_fields, ?_⟩
    simp only [List.forall_mem_cons]
    exact ⟨.real (hgauges _ (List.mem_map.mpr ⟨g, hg, rfl⟩)), List.forall_mem_nil _⟩
  · refine List.forall_mem_append.mpr ⟨s.series.only_fields, ?_⟩
    simp only [List.forall_mem_cons]
    exact ⟨.int _, List.forall_mem_nil _⟩
  · exact FlushedTimer.only_toJson fun x hx => htimers x (List.mem_flatMap.mpr ⟨t, ht, hx⟩)

end Written

theorem Graphite.value_of_mem_percentileFigures {disabled : DisabledFigures}
    {p : Percentile Binary64} {figure : Switched} (h : figure ∈ percentileFigures disabled p) :
    figure.2.2 ∈ p.numbers ∨ figure.2.2 = .ofNat p.count := by
  simp only [percentileFigures, List.mem_cons, List.not_mem_nil, or_false] at h
  rcases h with rfl | rfl | rfl | rfl | rfl <;> simp [Percentile.numbers]

theorem Graphite.value_of_mem_timerFigures {disabled : DisabledFigures} {s : Summary Binary64}
    {figure : Switched} (h : figure ∈ timerFigures disabled s) :
    figure.2.2 ∈ s.numbers ∨ figure.2.2 = .ofNat s.count := by
  simp only [timerFigures, List.mem_cons, List.not_mem_nil, or_false] at h
  rcases h with rfl | rfl | rfl | rfl | rfl | rfl | rfl | rfl | rfl <;> simp [Summary.numbers]

theorem Graphite.value_of_mem_figures {b : Batch Binary64} {disabled : DisabledFigures}
    {f : Figure} (hf : f ∈ figures disabled b) :
    f.value ∈ b.numbers ∨ ∃ n ∈ b.counts, f.value = .ofNat n := by
  simp only [figures, List.mem_append] at hf
  rcases hf with ((hf | hf) | hf) | hf
  · obtain ⟨c, hc, hf⟩ := List.mem_flatMap.mp hf
    refine .inl (List.mem_append_left _ (List.mem_append_left _ (List.mem_flatMap.mpr ⟨c, hc, ?_⟩)))
    simp only [List.mem_cons, List.not_mem_nil, or_false] at hf
    rcases hf with rfl | rfl <;> simp [FlushedCounter.numbers]
  · obtain ⟨g, hg, rfl⟩ := List.mem_map.mp hf
    exact .inl (List.mem_append_left _ (List.mem_append_right _ (List.mem_map.mpr ⟨g, hg, rfl⟩)))
  · obtain ⟨s, hs, rfl⟩ := List.mem_map.mp hf
    exact .inr ⟨_, List.mem_append_left _ (List.mem_map.mpr ⟨s, hs, rfl⟩), rfl⟩
  · obtain ⟨t, ht, hf⟩ := List.mem_flatMap.mp hf
    obtain ⟨figure, hfigure, rfl⟩ := List.mem_map.mp hf
    have hnumbers : ∀ x ∈ t.summary.numbers, x ∈ b.numbers := fun x hx =>
      List.mem_append_right _ (List.mem_flatMap.mpr ⟨t, ht, hx⟩)
    have hcounts : ∀ n ∈ t.summary.count :: t.summary.percentiles.map Percentile.count,
        n ∈ b.counts := fun n hn =>
      List.mem_append_right _ (List.mem_flatMap.mpr ⟨t, ht, hn⟩)
    rcases List.mem_append.mp (List.mem_filter.mp hfigure).1 with hfigure | hfigure
    · rcases value_of_mem_timerFigures hfigure with hnumber | hcount
      · exact .inl (hnumbers _ hnumber)
      · exact .inr ⟨_, hcounts _ List.mem_cons_self, hcount⟩
    · obtain ⟨p, hp, hfigure⟩ := List.mem_flatMap.mp hfigure
      rcases value_of_mem_percentileFigures hfigure with hnumber | hcount
      · exact .inl (hnumbers _ (List.mem_append_right _ (List.mem_flatMap.mpr ⟨p, hp, hnumber⟩)))
      · exact .inr ⟨_, hcounts _ (List.mem_cons_of_mem _ (List.mem_map.mpr ⟨p, hp, rfl⟩)), hcount⟩

end StatsDaemon
