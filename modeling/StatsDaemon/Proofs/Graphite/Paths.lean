import StatsDaemon.Proofs.Graphite.Parts

namespace StatsDaemon.Graphite

-- A tag as a path shows it: a bare tag has the value `true`.
def shownTag (tag : String) : String :=
  match Text.cut ':' tag.toList with
  | some _ => tag
  | none => tag ++ ":true"

def CleanTag (tag : String) : Prop :=
  sanitizeTag (Tags.keyOf tag) = Tags.keyOf tag ∧ sanitizeTag (Tags.valueOf tag) = Tags.valueOf tag

def tagField (tag : String) : List Char :=
  (tagText tag).toList.tail

def replaceFirst (sep other : Char) (text : List Char) : List Char :=
  match Text.cut sep text with
  | some (before, after) => before ++ other :: after
  | none => text

theorem replaceFirst_append {sep other : Char} {before : List Char} (h : sep ∉ before)
    (after : List Char) :
    replaceFirst sep other (before ++ sep :: after) = before ++ other :: after := by
  rw [replaceFirst, Text.cut_append h]

theorem tagField_of_clean {tag : String} (h : CleanTag tag) : ∃ key value : List Char,
    ':' ∉ key ∧ '=' ∉ key ∧ (shownTag tag).toList = key ++ ':' :: value ∧
      tagField tag = key ++ '=' :: value := by
  obtain ⟨hkey, hvalue⟩ := h
  have hinert := inert_sanitizeTag (Tags.keyOf tag)
  rw [hkey] at hinert
  have hequals := hinert.notMem (c := '=') (by decide)
  rcases Text.cut_cases ':' tag.toList with ⟨hbare, hcut⟩ | ⟨key, value, htext, hcolon, hcut⟩
  · have hkeyOf : Tags.keyOf tag = tag := by rw [Tags.keyOf, hcut]
    have htrue : sanitizeTag "true" = "true" := by decide
    rw [hkeyOf] at hkey hequals
    refine ⟨tag.toList, "true".toList, hbare, hequals, ?_, ?_⟩
    · rw [shownTag, hcut, String.toList_append]
      rfl
    · simp [tagField, tagText, hcut, hkey, htrue]
  · have hkeyOf : Tags.keyOf tag = String.ofList key := by rw [Tags.keyOf, hcut]
    have hvalueOf : Tags.valueOf tag = String.ofList value := by rw [Tags.valueOf, hcut]
    rw [hkeyOf] at hkey hequals
    rw [hvalueOf] at hvalue
    rw [String.toList_ofList] at hequals
    refine ⟨key, value, hcolon, hequals, ?_, ?_⟩
    · rw [shownTag, hcut, htext]
    · simp [tagField, tagText, hcut, hkey, hvalue]

theorem map_tagField {items : List String} (h : ∀ tag ∈ items, CleanTag tag) :
    items.map tagField = (items.map shownTag).map (replaceFirst ':' '=' ·.toList) := by
  rw [List.map_map]
  refine List.map_congr_left fun tag htag => ?_
  obtain ⟨key, value, hcolon, -, hshown, hfield⟩ := tagField_of_clean (h tag htag)
  rw [Function.comp_apply, hshown, replaceFirst_append hcolon, hfield]

theorem map_shownTag {items : List String} (h : ∀ tag ∈ items, CleanTag tag) :
    (items.map shownTag).map String.toList = (items.map tagField).map (replaceFirst '=' ':') := by
  rw [List.map_map, List.map_map]
  refine List.map_congr_left fun tag htag => ?_
  obtain ⟨key, value, -, hequals, hshown, hfield⟩ := tagField_of_clean (h tag htag)
  rw [Function.comp_apply, Function.comp_apply, hshown, hfield, replaceFirst_append hequals]

theorem map_tagField_eq_iff {items others : List String} (h : ∀ tag ∈ items, CleanTag tag)
    (h' : ∀ tag ∈ others, CleanTag tag) :
    items.map tagField = others.map tagField ↔ items.map shownTag = others.map shownTag := by
  constructor
  · intro heq
    have hlists : (items.map shownTag).map String.toList =
        (others.map shownTag).map String.toList := by
      rw [map_shownTag h, map_shownTag h', heq]
    exact (List.map_injective_iff.mpr fun _ _ => String.toList_inj.mp) hlists
  · intro heq
    rw [map_tagField h, map_tagField h', heq]

-- Semicolons stand only before the tags, so that they divide the path again.
theorem pieces_append_tags {stem : List Char} (h : ';' ∉ stem) (items : List String) :
    Text.pieces ';' (stem ++ items.flatMap fun tag => (tagText tag).toList) =
      stem :: items.map tagField := by
  induction items generalizing stem with
  | nil => rw [List.flatMap_nil, List.append_nil, Text.pieces_of_notMem h, List.map_nil]
  | cons tag rest ih =>
    obtain ⟨key, value, hkey, hvalue, htext⟩ := toList_tagText tag
    have hfield : (tagText tag).toList = ';' :: tagField tag := by
      rw [tagField, htext]
      rfl
    have hinert : ';' ∉ tagField tag := by
      rw [tagField, htext]
      simp [hkey.notMem (c := ';') (by decide), hvalue.notMem (c := ';') (by decide)]
    rw [List.flatMap_cons, hfield, List.cons_append, Text.pieces_append, Text.pieces_of_notMem h,
      ih hinert]
    rfl

theorem append_tags_eq_iff {stem other : List Char} (h : ';' ∉ stem) (h' : ';' ∉ other)
    {items others : List String} :
    (stem ++ items.flatMap fun tag => (tagText tag).toList) =
        (other ++ others.flatMap fun tag => (tagText tag).toList) ↔
      stem = other ∧ items.map tagField = others.map tagField := by
  rw [← List.cons.injEq, ← pieces_append_tags h, ← pieces_append_tags h']
  constructor
  · exact congrArg _
  · intro hpieces
    rw [← Text.intercalate_pieces ';' (stem ++ _), hpieces, Text.intercalate_pieces]

def standard (disabled : DisabledFigures) : Format :=
  { disabled }

structure Clean (series : Series) : Prop where
  name_ne : series.name ≠ ""
  name : sanitizePath series.name = series.name
  tags : ∀ tag ∈ series.tags.items, CleanTag tag

section Stem

variable {disabled : DisabledFigures} {r s : Rendered}

def suffixText (suffix : String) : List Char :=
  if suffix.isEmpty then [] else '.' :: suffix.toList

theorem toList_stem (h : Clean r.series) : ((standard disabled).stem r.figure).toList =
    "stats".toList ++ '.' :: ((Prefixes.ofKind {} r.kind).toList ++
      '.' :: (r.series.name.toList ++ suffixText r.part.suffix)) := by
  have hname : (!r.series.name.isEmpty) = true := by simpa using h.name_ne
  have hkind : (!(Prefixes.ofKind {} r.kind).isEmpty) = true := by
    cases r.kind <;> decide
  have hbase : ((standard disabled).basePath r.kind r.series.name).toList =
      "stats".toList ++ '.' :: ((Prefixes.ofKind {} r.kind).toList ++
        '.' :: r.series.name.toList) := by
    have hglobal : (!"stats".isEmpty) = true := by decide
    simp only [Format.basePath, standard, h.name, List.filter_cons, hglobal, hkind, hname, if_true,
      List.filter_nil, String.toList_intercalate, List.map_cons, List.map_nil,
      List.intercalate_cons_cons, List.intercalate_singleton, List.append_assoc]
    rfl
  have hfigure : (standard disabled).basePath r.figure.kind r.figure.series.name =
      (standard disabled).basePath r.kind r.series.name := rfl
  simp only [Format.stem, hfigure, suffixText]
  show String.toList (if r.part.suffix.isEmpty then _ else _) = _
  split
  · rw [hbase, List.append_nil]
  · simp [hbase, Rendered.figure]

theorem ofKind_inj {kind other : Kind}
    (h : (Prefixes.ofKind {} kind).toList = (Prefixes.ofKind {} other).toList) : kind = other := by
  revert h
  cases kind <;> cases other <;> decide

theorem point_notMem_ofKind (kind : Kind) : '.' ∉ (Prefixes.ofKind {} kind).toList := by
  cases kind <;> decide

-- The last point is before the suffix, if there is one.
theorem name_suffix_inj {kind : Kind} {name other : List Char} {p q : Part} (hp : p.Fits kind)
    (hq : q.Fits kind) (h : name ++ suffixText p.suffix = other ++ suffixText q.suffix) :
    name = other ∧ p.suffix = q.suffix := by
  by_cases hkind : kind = .gauge
  · subst hkind
    obtain rfl := hp
    obtain rfl := hq
    exact ⟨by simpa [suffixText, Part.suffix] using h, rfl⟩
  · have hne := suffix_ne_empty hp hkind
    have hne' := suffix_ne_empty hq hkind
    simp only [suffixText, String.isEmpty_iff, hne, hne', if_false] at h
    have hpieces := congrArg (Text.pieces '.') h
    rw [Text.pieces_append, Text.pieces_append, Text.pieces_of_notMem (point_notMem_suffix p),
      Text.pieces_of_notMem (point_notMem_suffix q)] at hpieces
    obtain ⟨hname, hsuffix⟩ := List.append_inj' hpieces rfl
    refine ⟨?_, String.toList_inj.mp (List.singleton_inj.mp hsuffix)⟩
    rw [← Text.intercalate_pieces '.' name, hname, Text.intercalate_pieces]

theorem stem_eq_iff (hr : Clean r.series) (hs : Clean s.series) (hfits : r.part.Fits r.kind)
    (hfits' : s.part.Fits s.kind) :
    (standard disabled).stem r.figure = (standard disabled).stem s.figure ↔
      r.kind = s.kind ∧ r.series.name = s.series.name ∧ r.part.Same s.part := by
  rw [← String.toList_inj, toList_stem hr, toList_stem hs]
  constructor
  · intro h
    have hcut := congrArg (Text.cut '.') (List.cons_inj_right _ |>.mp (List.append_cancel_left h))
    rw [Text.cut_append (point_notMem_ofKind _), Text.cut_append (point_notMem_ofKind _),
      Option.some_inj, Prod.mk.injEq] at hcut
    obtain ⟨hstart, hrest⟩ := hcut
    have hkind := ofKind_inj hstart
    rw [← hkind] at hfits'
    obtain ⟨hname, hsuffix⟩ := name_suffix_inj hfits hfits' hrest
    exact ⟨hkind, String.toList_inj.mp hname, (suffix_eq_iff hfits hfits').mp hsuffix⟩
  · rintro ⟨hkind, hname, hsame⟩
    rw [← hkind] at hfits'
    rw [hkind, hname, (suffix_eq_iff hfits hfits').mpr hsame]

end Stem

def linePath (line : String) : List Char :=
  line.toList.takeWhile (· != ' ')

theorem linePath_line {f : Format} (h : f.prefixes.Sound) {figure : Figure}
    (hsuffix : Inert figure.suffix.toList) (timestamp : Nat) :
    linePath (f.line timestamp figure) = (f.path figure).toList := by
  have hblank : ∀ c ∈ (f.path figure).toList, (c != ' ') = true := by
    intro c hc
    have := isBlank_of_mem_path h hsuffix c hc
    rw [bne_iff_ne]
    rintro rfl
    exact absurd this (by decide)
  rw [linePath, toList_line, Format.lineText, List.append_assoc,
    List.takeWhile_append_of_pos hblank, List.cons_append,
    List.takeWhile_cons_of_neg (by decide), List.append_nil]

theorem inert_of_mem_values {disabled : DisabledFigures} {b : Batch Binary64} {r : Rendered}
    (hr : r ∈ values disabled b) : Inert r.figure.suffix.toList := by
  have hfigure : r.figure ∈ figures disabled b := by
    rw [figures_eq]
    exact List.mem_map_of_mem hr
  exact inert_suffix hfigure

-- Values share a path if and only if they are of one kind and name, the same part of it, and have
-- the same tags where a bare tag counts as `true`.
theorem lines_told_apart (disabled : DisabledFigures) (b : Batch Binary64) :
    (standard disabled).render b = String.join ((values disabled b).map fun r =>
        (standard disabled).line b.timestamp r.figure) ∧
      ∀ r ∈ values disabled b, ∀ s ∈ values disabled b, Clean r.series → Clean s.series →
        (linePath ((standard disabled).line b.timestamp r.figure) =
            linePath ((standard disabled).line b.timestamp s.figure) ↔
          r.kind = s.kind ∧ r.series.name = s.series.name ∧ r.part.Same s.part ∧
            r.series.tags.items.map shownTag = s.series.tags.items.map shownTag) := by
  refine ⟨?_, fun r hr s hs hclean hclean' => ?_⟩
  · rw [Format.render]
    show String.join ((figures disabled b).map _) = _
    rw [figures_eq, List.map_map]
    rfl
  · have hsound : (standard disabled).prefixes.Sound := Prefixes.sound_default
    have hinert := inert_of_mem_values hr
    have hinert' := inert_of_mem_values hs
    have hsemicolon {figure : Figure} (h : Inert figure.suffix.toList) :
        ';' ∉ ((standard disabled).stem figure).toList :=
      (inert_stem hsound h).notMem (by decide)
    have hstem : (standard disabled).stem r.figure = (standard disabled).stem s.figure ↔
        r.kind = s.kind ∧ r.series.name = s.series.name ∧ r.part.Same s.part :=
      stem_eq_iff hclean hclean' (fits_of_mem hr) (fits_of_mem hs)
    have htags := map_tagField_eq_iff hclean.tags hclean'.tags
    rw [linePath_line hsound hinert, linePath_line hsound hinert', toList_path, toList_path,
      append_tags_eq_iff (hsemicolon hinert) (hsemicolon hinert'), String.toList_inj, hstem,
      and_assoc, and_assoc]
    exact and_congr_right' (and_congr_right' (and_congr_right' htags))

def latency : Series :=
  ⟨"latency.p", Tags.ofList ["env:prod", "canary"]⟩

theorem clean_latency : Clean latency where
  name_ne := by decide
  name := sanitizePath_of_clean (by decide)
  tags := by
    have hitems : latency.tags.items = ["canary", "env:prod"] := by decide
    rw [hitems]
    simp only [List.forall_mem_cons]
    exact ⟨by unfold CleanTag; decide, by unfold CleanTag; decide, fun _ h => nomatch h⟩

def halves : Batch Binary64 where
  timestamp := 1700000000
  counters := []
  gauges := []
  sets := []
  timers :=
    [{ series := latency
       summary :=
        { count := 2, sampledCount := 2, perSecond := 2, sum := 4, sumSquares := 10, least := 1,
          greatest := 3, mean := 2, median := 2, deviation := 1,
          percentiles :=
            [⟨.ofNat 50, 1, 1, 1, 1, 1⟩, ⟨(Binary64.ofNat 50).withSign true, 3, 1, 3, 3, 9⟩] } }]
  events := []

def upperHalf : Rendered :=
  ⟨.timer, latency, .cut (.ofNat 50) .bound, 1⟩

def lowerHalf : Rendered :=
  ⟨.timer, latency, .cut ((Binary64.ofNat 50).withSign true) .bound, 3⟩

theorem halves_told_apart :
    upperHalf ∈ values {} halves ∧ lowerHalf ∈ values {} halves ∧ Clean upperHalf.series ∧
      Clean lowerHalf.series ∧
      (linePath ((standard {}).line halves.timestamp upperHalf.figure) =
          linePath ((standard {}).line halves.timestamp lowerHalf.figure) ↔
        upperHalf.kind = lowerHalf.kind ∧ upperHalf.series.name = lowerHalf.series.name ∧
          upperHalf.part.Same lowerHalf.part ∧
          upperHalf.series.tags.items.map shownTag = lowerHalf.series.tags.items.map shownTag) := by
  have hupper : upperHalf ∈ values {} halves := by decide +kernel
  have hlower : lowerHalf ∈ values {} halves := by decide +kernel
  exact ⟨hupper, hlower, clean_latency, clean_latency,
    (lines_told_apart {} halves).2 _ hupper _ hlower clean_latency clean_latency⟩

def canaries : Batch Binary64 where
  timestamp := 1700000000
  counters :=
    [{ series := ⟨"hits", Tags.ofList ["canary"]⟩, delta := 1, perSecond := 1, total := 1 },
      { series := ⟨"hits", Tags.ofList ["canary:true"]⟩, delta := 2, perSecond := 2, total := 2 }]
  gauges := []
  sets := []
  timers := []
  events := []

theorem bare_tag_shares_path :
    ∃ r ∈ values {} canaries, ∃ s ∈ values {} canaries, Clean r.series ∧ Clean s.series ∧
      r.series ≠ s.series ∧
      linePath ((standard {}).line canaries.timestamp r.figure) =
        linePath ((standard {}).line canaries.timestamp s.figure) := by
  have hclean (tag : String) (htag : CleanTag tag) : Clean ⟨"hits", Tags.ofList [tag]⟩ :=
    { name_ne := (by decide : "hits" ≠ "")
      name := sanitizePath_of_clean (by decide : "hits".toList.all isPathChar = true)
      tags := by
        show ∀ other ∈ [tag], CleanTag other
        exact List.forall_mem_singleton.mpr htag }
  have hbare : (⟨.counter, ⟨"hits", Tags.ofList ["canary"]⟩, .count, 1⟩ : Rendered) ∈
      values {} canaries := by decide +kernel
  have htrue : (⟨.counter, ⟨"hits", Tags.ofList ["canary:true"]⟩, .count, 2⟩ : Rendered) ∈
      values {} canaries := by decide +kernel
  refine ⟨_, hbare, _, htrue, hclean _ (by unfold CleanTag; decide),
    hclean _ (by unfold CleanTag; decide), by decide, ?_⟩
  have hsound : (standard {}).prefixes.Sound := Prefixes.sound_default
  rw [linePath_line hsound (inert_of_mem_values hbare),
    linePath_line hsound (inert_of_mem_values htrue)]
  decide +kernel

end StatsDaemon.Graphite
