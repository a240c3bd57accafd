import StatsDaemon.Backends.Payload
import StatsDaemon.Proofs.Batch.RoundTrip
import StatsDaemon.Proofs.Graphite.Lines
import StatsDaemon.Proofs.Json.Controls

namespace StatsDaemon.Backends

def written (disabled : DisabledFigures) (path : Option String) (b : Batch Binary64) : String :=
  (payload? disabled (.stdout path) b).elim "" Prod.snd

def eventMark : List Char := "event ".toList

def readEvent? (json : List Char) : Option Event :=
  (Json.parse? (String.ofList json)).bind Event.ofJson?

-- The lines of the figures and the events of an output, told apart by the mark alone.
def splitOutput? (text : String) : Option (List (List Char) × List Event) :=
  let lines := (Text.pieces '\n' text.toList).dropLast
  let figures := lines.filter fun line => (Text.dropStart? eventMark line).isNone
  let events := lines.filterMap (Text.dropStart? eventMark)
  (events.mapM readEvent?).map fun events => (figures, events)

theorem written_eq_linesOf (disabled : DisabledFigures) (path : Option String)
    (b : Batch Binary64) : written disabled path b = linesOf { disabled } b := by
  unfold written payload?
  dsimp only
  split
  · rename_i hempty
    exact (String.isEmpty_iff.mp hempty).symm
  · rfl

def eventTexts (b : Batch Binary64) : List (List Char) :=
  b.events.map fun e => e.toJson.text.toList

theorem toList_eventLine (e : Event) :
    (eventLine e).toList = eventMark ++ e.toJson.text.toList ++ ['\n'] := by
  rw [eventLine, String.toList_append, String.toList_append]
  rfl

theorem toList_linesOf (f : Graphite.Format) (b : Batch Binary64) :
    (linesOf f b).toList =
      (f.lineTexts b ++ (eventTexts b).map (eventMark ++ ·)).flatMap (· ++ ['\n']) := by
  rw [linesOf, String.toList_append, String.toList_join, Graphite.toList_render, eventTexts,
    List.flatMap_append, List.flatMap_map, List.flatMap_map, List.flatMap_map]
  simp only [toList_eventLine]

theorem lineBreak_notMem_eventTexts (b : Batch Binary64) : ∀ json ∈ eventTexts b, '\n' ∉ json :=
  List.forall_mem_map.mpr fun e _ => Json.lineBreak_notMem_text e.toJson

theorem pieces_linesOf {f : Graphite.Format} (h : f.prefixes.Sound) (b : Batch Binary64) :
    Text.pieces '\n' (linesOf f b).toList =
      f.lineTexts b ++ (eventTexts b).map (eventMark ++ ·) ++ [[]] := by
  rw [toList_linesOf]
  refine Graphite.pieces_flatMap_append '\n' _ (List.forall_mem_append.mpr ⟨?_, ?_⟩)
  · exact Graphite.lineBreak_notMem_lineTexts h b
  · refine List.forall_mem_map.mpr fun json hjson => ?_
    rw [List.mem_append, not_or]
    exact ⟨by decide, lineBreak_notMem_eventTexts b json hjson⟩

-- The first part of a path is its prefix, which does not begin as the mark does.
theorem eventMark_not_prefix_lineTexts (disabled : DisabledFigures) (b : Batch Binary64) :
    ∀ line ∈ ({ disabled } : Graphite.Format).lineTexts b, ¬ eventMark <+: line := by
  refine List.forall_mem_map.mpr fun figure _ hmark => ?_
  let f : Graphite.Format := { disabled }
  have hpath : f.prefixes.global.toList <+: (f.path figure).toList :=
    Graphite.global_prefix_path Graphite.Prefixes.sound_default
  have hline : "stats".toList <+: f.lineText b.timestamp figure :=
    hpath.trans (List.prefix_append _ _)
  rcases List.prefix_or_prefix_of_prefix hmark hline with h | h
  · exact absurd h (by decide)
  · exact absurd h (by decide)

theorem readEvent?_text {e : Event} (h : e.Timed) : readEvent? e.toJson.text.toList = some e := by
  rw [readEvent?, String.ofList_toList, Json.parse?_text (Event.writable_toJson h),
    Option.bind_some, Event.ofJson?_toJson h]

section Split

variable {figures texts : List (List Char)}

theorem filter_marked (h : ∀ line ∈ figures, ¬ eventMark <+: line) :
    (figures ++ texts.map (eventMark ++ ·)).filter
      (fun line => (Text.dropStart? eventMark line).isNone) = figures := by
  have hfigures : ∀ line ∈ figures, (Text.dropStart? eventMark line).isNone = true :=
    fun line hline => Option.isNone_iff_eq_none.mpr
      ((Text.dropStart?_eq_none_iff eventMark line).mpr (h line hline))
  rw [List.filter_append, List.filter_eq_self.mpr hfigures, List.filter_map,
    List.filter_eq_nil_iff.mpr, List.map_nil, List.append_nil]
  intro json _
  simp [Text.dropStart?_append]

theorem filterMap_marked (h : ∀ line ∈ figures, ¬ eventMark <+: line) :
    (figures ++ texts.map (eventMark ++ ·)).filterMap (Text.dropStart? eventMark) = texts := by
  have hfigures : figures.filterMap (Text.dropStart? eventMark) = [] :=
    List.filterMap_eq_nil_iff.mpr fun line hline =>
      (Text.dropStart?_eq_none_iff eventMark line).mpr (h line hline)
  rw [List.filterMap_append, hfigures, List.nil_append, List.filterMap_map]
  simp only [Function.comp_def, Text.dropStart?_append, List.filterMap_some]

end Split

-- An output has the lines of the figures and then one line for each event, and is split into them
-- again.
theorem output_split (disabled : DisabledFigures) (path : Option String) {b : Batch Binary64}
    (timed : ∀ e ∈ b.events, e.Timed) :
    ∃ figures texts : List (List Char),
      Text.pieces '\n' (({ disabled } : Graphite.Format).render b).toList = figures ++ [[]] ∧
      Text.pieces '\n' (written disabled path b).toList =
        figures ++ texts.map (eventMark ++ ·) ++ [[]] ∧
      (∀ line ∈ figures, ¬ eventMark <+: line) ∧
      List.Forall₂ (fun e json => '\n' ∉ json ∧ readEvent? json = some e) b.events texts ∧
      splitOutput? (written disabled path b) = some (figures, b.events) := by
  have hsound := Graphite.Prefixes.sound_default
  have hfigures := eventMark_not_prefix_lineTexts disabled b
  have hread : (eventTexts b).mapM readEvent? = some b.events :=
    Document.mapM_map fun e he => readEvent?_text (timed e he)
  have hlines : Text.pieces '\n' (written disabled path b).toList =
      ({ disabled } : Graphite.Format).lineTexts b ++ (eventTexts b).map (eventMark ++ ·) ++ [[]] := by
    rw [written_eq_linesOf]
    exact pieces_linesOf hsound b
  refine ⟨({ disabled } : Graphite.Format).lineTexts b, eventTexts b,
    Graphite.pieces_render hsound b, hlines, hfigures, ?_, ?_⟩
  · rw [eventTexts, List.forall₂_map_right_iff, List.forall₂_same]
    exact fun e he => ⟨Json.lineBreak_notMem_text e.toJson, readEvent?_text (timed e he)⟩
  · rw [splitOutput?, hlines, List.dropLast_concat, filter_marked hfigures,
      filterMap_marked hfigures, hread]
    rfl

def disguised : Batch Binary64 where
  timestamp := 1700000000
  counters :=
    [{ series := ⟨"event \nevent x", Tags.ofList ["event \n:y"]⟩, delta := 1, perSecond := 1,
       total := 1 }]
  gauges := []
  sets := []
  timers := []
  events :=
    [{ title := "event \nstats.a 1 2\n\"\\", text := "\r\u2028\u0085\x00", timestamp := some (-1),
       tags := Tags.ofList ["k:v\n", "\x7f"], source := some "\n" },
      deployment]

theorem disguised_split :
    (∀ e ∈ disguised.events, e.Timed) ∧
      ∃ figures texts : List (List Char),
        Text.pieces '\n' (({} : Graphite.Format).render disguised).toList = figures ++ [[]] ∧
        Text.pieces '\n' (written {} none disguised).toList =
          figures ++ texts.map (eventMark ++ ·) ++ [[]] ∧
        (∀ line ∈ figures, ¬ eventMark <+: line) ∧
        List.Forall₂ (fun e json => '\n' ∉ json ∧ readEvent? json = some e) disguised.events texts ∧
        splitOutput? (written {} none disguised) = some (figures, disguised.events) := by
  have htimed : ∀ e ∈ disguised.events, e.Timed := by
    refine List.forall_mem_cons.mpr ⟨?_, List.forall_mem_singleton.mpr ?_⟩
    all_goals
      intro t ht
      obtain rfl := Option.some.inj ht
      decide
  exact ⟨htimed, output_split {} none htimed⟩

end StatsDaemon.Backends
