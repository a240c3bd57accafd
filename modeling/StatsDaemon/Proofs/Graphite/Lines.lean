import Mathlib
import StatsDaemon.Graphite.Format
import StatsDaemon.Proofs.Decimal.Plain
import StatsDaemon.Proofs.Graphite.Sanitize

namespace StatsDaemon.Graphite

open Decimal (plain digitsOf)

theorem inert_render (x : Binary64) : Inert (plain.render x) := by
  by_cases hfinite : x.isFinite = true
  · intro c hc
    rcases Decimal.isPlain_of_mem_render x hfinite c hc with hdigit | rfl | rfl
    · exact isInert_of_isPathChar (by simp [isPathChar, Char.isAlphanum, hdigit])
    · decide
    · decide
  · have hsign : Inert (Decimal.signOf x.isNegative) := by
      cases x.isNegative <;> decide
    have hnan : Inert plain.nan.toList := by decide
    have hinfinity : Inert plain.infinity.toList := by decide
    unfold Decimal.Layout.render
    split
    · exact hnan
    · rw [if_pos (by simpa using hfinite)]
      exact hsign.append hinfinity

theorem inert_digitsOf (n : Nat) : Inert (digitsOf n) := fun c hc =>
  isInert_of_isPathChar (by simp [isPathChar, Char.isAlphanum, Decimal.allDigits_digitsOf n c hc])

theorem inert_nil : Inert [] := fun _ h => absurd h List.not_mem_nil

theorem inert_intercalate {parts : List (List Char)} (h : ∀ part ∈ parts, Inert part) :
    Inert (['.'].intercalate parts) := by
  intro c hc
  by_cases hdot : c = '.'
  · rw [hdot]
    decide
  · by_contra hinert
    exact Text.notMem_intercalate hdot (fun part hpart => (h part hpart).notMem hinert) hc

section Figures

theorem inert_suffixOf (threshold : Binary64) : Inert (Percentile.suffixOf threshold).toList := by
  rw [Percentile.suffixOf, String.toList_ofList]
  intro c hc
  obtain ⟨d, hd, rfl⟩ := List.mem_map.mp hc
  split
  · decide
  · exact inert_render _ d hd

theorem inert_labelOf (threshold : Binary64) : Inert (Percentile.labelOf threshold).toList := by
  rw [Percentile.labelOf, String.toList_append]
  refine Inert.append ?_ (inert_suffixOf threshold)
  split <;> decide

theorem inert_of_mem_timerFigures {disabled : DisabledFigures} {s : Summary Binary64}
    {figure : Switched} (h : figure ∈ timerFigures disabled s) : Inert figure.1.toList := by
  simp only [timerFigures, List.mem_cons, List.not_mem_nil, or_false] at h
  rcases h with rfl | rfl | rfl | rfl | rfl | rfl | rfl | rfl | rfl <;> dsimp only <;> decide

theorem inert_of_mem_percentileFigures {disabled : DisabledFigures} {p : Percentile Binary64}
    {figure : Switched} (h : figure ∈ percentileFigures disabled p) : Inert figure.1.toList := by
  have hlower : Inert (if (p.threshold < 0 : Bool) then "lower_" else "").toList := by
    split <;> decide
  have hsuffix := hlower.append (inert_suffixOf p.threshold)
  simp only [percentileFigures, List.mem_cons, List.not_mem_nil, or_false] at h
  rcases h with rfl | rfl | rfl | rfl | rfl
  · exact inert_labelOf p.threshold
  all_goals
    simp only [String.toList_append]
    exact Inert.append (by decide) hsuffix

theorem inert_suffix {disabled : DisabledFigures} {b : Batch Binary64} {figure : Figure}
    (h : figure ∈ figures disabled b) : Inert figure.suffix.toList := by
  simp only [figures, List.mem_append, List.mem_flatMap, List.mem_map] at h
  rcases h with ((⟨c, -, hc⟩ | ⟨g, -, rfl⟩) | ⟨s, -, rfl⟩) | ⟨t, -, ht⟩
  · simp only [List.mem_cons, List.not_mem_nil, or_false] at hc
    rcases hc with rfl | rfl <;> dsimp only <;> decide
  · exact inert_nil
  · show Inert "count".toList
    decide
  · obtain ⟨switched, hswitched, rfl⟩ := List.mem_map.mp ht
    rcases List.mem_append.mp (List.mem_filter.mp hswitched).1 with htimer | hcut
    · exact inert_of_mem_timerFigures htimer
    · obtain ⟨p, -, hp⟩ := List.mem_flatMap.mp hcut
      exact inert_of_mem_percentileFigures hp

def timerSwitches (disabled : DisabledFigures) : List Bool :=
  [disabled.lower, disabled.upper, disabled.count, disabled.countPerSecond, disabled.mean,
    disabled.median, disabled.std, disabled.sum, disabled.sumSquares]

def cutSwitches (disabled : DisabledFigures) (lower : Bool) : List Bool :=
  [if lower then disabled.lowerPct else disabled.upperPct, disabled.countPct, disabled.meanPct,
    disabled.sumPct, disabled.sumSquaresPct]

def lineCount (disabled : DisabledFigures) (b : Batch Binary64) : Nat :=
  2 * b.counters.length + b.gauges.length + b.sets.length +
    (b.timers.map fun t => (timerSwitches disabled).count false +
      (t.summary.percentiles.map fun p =>
        (cutSwitches disabled (p.threshold < 0)).count false).sum).sum

theorem length_filter_not (all : List Switched) :
    (all.filter fun (_, skip, _) => !skip).length = (all.map fun (_, skip, _) => skip).count false := by
  rw [List.count, List.countP_map, List.countP_eq_length_filter]
  congr 1
  exact List.filter_congr fun s _ => by cases h : s.2.1 <;> simp [h]

theorem length_figures (disabled : DisabledFigures) (b : Batch Binary64) :
    (figures disabled b).length = lineCount disabled b := by
  have htimer (t : FlushedTimer Binary64) : (FlushedTimer.figures disabled t).length =
      (timerSwitches disabled).count false + (t.summary.percentiles.map fun p =>
        (cutSwitches disabled (p.threshold < 0)).count false).sum := by
    rw [FlushedTimer.figures, List.length_map, length_filter_not, List.map_append,
      List.count_append, List.map_flatMap, List.count_flatMap]
    rfl
  simp only [figures, lineCount, List.length_append, List.length_flatMap, List.length_map, htimer]
  congr 3
  simp
  omega

end Figures

-- Prefixes that a path can begin with.
structure Prefixes.Sound (p : Prefixes) : Prop where
  global_ne : p.global ≠ ""
  global : Inert p.global.toList
  ofKind (kind : Kind) : Inert (p.ofKind kind).toList

theorem Prefixes.sound_default : ({} : Prefixes).Sound where
  global_ne := by decide
  global := by decide
  ofKind kind := by cases kind <;> decide

section Path

variable {f : Format} {figure : Figure}

def Format.stem (f : Format) (figure : Figure) : String :=
  let base := f.basePath figure.kind figure.series.name
  if figure.suffix.isEmpty then base else base ++ "." ++ figure.suffix

def Format.tagsOf (f : Format) (figure : Figure) : List String :=
  match f.tagStyle with
  | .graphite => figure.series.tags.items
  | .none => []

theorem toList_path : (f.path figure).toList =
    (f.stem figure).toList ++ (f.tagsOf figure).flatMap fun tag => (tagText tag).toList := by
  unfold Format.path Format.tagsOf
  cases f.tagStyle with
  | graphite => simp [Format.stem, List.flatMap_map]
  | none => simp [Format.stem]

theorem inert_basePath (h : f.prefixes.Sound) (kind : Kind) (name : String) :
    Inert (f.basePath kind name).toList := by
  rw [Format.basePath, String.toList_intercalate]
  refine inert_intercalate fun part hpart => ?_
  obtain ⟨text, htext, rfl⟩ := List.mem_map.mp hpart
  have hmem := (List.mem_filter.mp htext).1
  simp only [List.mem_cons, List.not_mem_nil, or_false] at hmem
  rcases hmem with rfl | rfl | rfl
  · exact h.global
  · exact h.ofKind kind
  · exact inert_sanitizePath name

theorem prefix_intercalate {α : Type} (sep : α) (first : List α) (rest : List (List α)) :
    first <+: [sep].intercalate (first :: rest) := by
  cases rest with
  | nil => simp
  | cons second rest =>
    rw [List.intercalate_cons_cons, List.append_assoc]
    exact List.prefix_append _ _

theorem global_prefix_path (h : f.prefixes.Sound) :
    f.prefixes.global.toList <+: (f.path figure).toList := by
  have hkept : (!f.prefixes.global.isEmpty) = true := by simpa using h.global_ne
  have hbase :
      f.prefixes.global.toList <+: (f.basePath figure.kind figure.series.name).toList := by
    rw [Format.basePath, List.filter_cons, if_pos hkept, String.toList_intercalate, List.map_cons]
    exact prefix_intercalate _ _ _
  have hstem : f.prefixes.global.toList <+: (f.stem figure).toList := by
    unfold Format.stem
    split
    · exact hbase
    · rw [String.toList_append, String.toList_append, List.append_assoc]
      exact hbase.trans (List.prefix_append _ _)
  rw [toList_path]
  exact hstem.trans (List.prefix_append _ _)

theorem inert_stem (h : f.prefixes.Sound) (hsuffix : Inert figure.suffix.toList) :
    Inert (f.stem figure).toList := by
  have hbase := inert_basePath h figure.kind figure.series.name
  unfold Format.stem
  split
  · exact hbase
  · rw [String.toList_append, String.toList_append]
    exact (hbase.append (by decide)).append hsuffix

-- A tag adds one semicolon and one equals sign, wherever it has its own.
theorem toList_tagText (tag : String) : ∃ key value, Inert key ∧ Inert value ∧
    (tagText tag).toList = ';' :: key ++ '=' :: value := by
  unfold tagText
  split
  rename_i key value _
  refine ⟨_, _, inert_sanitizeTag key, inert_sanitizeTag value, ?_⟩
  simp

theorem isBlank_of_mem_path (h : f.prefixes.Sound) (hsuffix : Inert figure.suffix.toList) :
    ∀ c ∈ (f.path figure).toList, Text.isBlank c = false := by
  rw [toList_path]
  refine List.forall_mem_append.mpr ⟨fun c hc => (inert_stem h hsuffix c hc).1, fun c hc => ?_⟩
  obtain ⟨tag, -, htag⟩ := List.mem_flatMap.mp hc
  obtain ⟨key, value, hkey, hvalue, htext⟩ := toList_tagText tag
  rw [htext] at htag
  simp only [List.cons_append, List.mem_cons, List.mem_append] at htag
  rcases htag with rfl | hc | rfl | hc
  · decide
  · exact (hkey c hc).1
  · decide
  · exact (hvalue c hc).1

-- Semicolons and equals signs of a path are those its tags are written with.
theorem count_path {sep : Char} (hsep : sep = ';' ∨ sep = '=') (h : f.prefixes.Sound)
    (hsuffix : Inert figure.suffix.toList) :
    (f.path figure).toList.count sep = (f.tagsOf figure).length := by
  have hinert : ¬ IsInert sep := by rcases hsep with rfl | rfl <;> decide
  have htag (tag : String) : (tagText tag).toList.count sep = 1 := by
    obtain ⟨key, value, hkey, hvalue, htext⟩ := toList_tagText tag
    rw [htext, List.count_append, List.count_cons, List.count_cons,
      List.count_eq_zero.mpr (hkey.notMem hinert), List.count_eq_zero.mpr (hvalue.notMem hinert)]
    rcases hsep with rfl | rfl <;> decide
  have hstem := List.count_eq_zero.mpr ((inert_stem h hsuffix).notMem hinert)
  rw [toList_path, List.count_append, hstem, Nat.zero_add, List.count_flatMap]
  simp [Function.comp_def, htag]

end Path

-- A line as it is read back: three fields between single blanks, with the tags in the path.
structure Format.Shows (f : Format) (timestamp : Nat) (figure : Figure) (line : List Char) :
    Prop where
  fields : Text.pieces ' ' line =
    [(f.path figure).toList, plain.render figure.value, digitsOf timestamp]
  blankless : ∀ field ∈ Text.pieces ' ' line, ∀ c ∈ field, Text.isBlank c = false
  path_ne : f.path figure ≠ ""
  semicolons : (f.path figure).toList.count ';' = (f.tagsOf figure).length
  equals : (f.path figure).toList.count '=' = (f.tagsOf figure).length

def Format.lineText (f : Format) (timestamp : Nat) (figure : Figure) : List Char :=
  (f.path figure).toList ++ ' ' :: (plain.render figure.value ++ ' ' :: digitsOf timestamp)

theorem toList_line (f : Format) (timestamp : Nat) (figure : Figure) :
    (f.line timestamp figure).toList = f.lineText timestamp figure ++ ['\n'] := by
  simp [Format.line, Format.lineText, Decimal.plainText]

section Lines

variable {f : Format} (h : f.prefixes.Sound) {figure : Figure} (timestamp : Nat)
  (hsuffix : Inert figure.suffix.toList)

include h hsuffix

theorem pieces_lineText : Text.pieces ' ' (f.lineText timestamp figure) =
    [(f.path figure).toList, plain.render figure.value, digitsOf timestamp] := by
  have hpath : ' ' ∉ (f.path figure).toList := fun hmem =>
    absurd (isBlank_of_mem_path h hsuffix ' ' hmem) (by decide)
  have hvalue : ' ' ∉ plain.render figure.value := (inert_render _).notMem (by decide)
  have htime : ' ' ∉ digitsOf timestamp := (inert_digitsOf _).notMem (by decide)
  rw [Format.lineText, Text.pieces_append, Text.pieces_append, Text.pieces_of_notMem hpath,
    Text.pieces_of_notMem hvalue, Text.pieces_of_notMem htime]
  rfl

theorem isBlank_of_mem_fields :
    ∀ field ∈ [(f.path figure).toList, plain.render figure.value, digitsOf timestamp],
      ∀ c ∈ field, Text.isBlank c = false := by
  intro field hfield c hc
  simp only [List.mem_cons, List.not_mem_nil, or_false] at hfield
  rcases hfield with rfl | rfl | rfl
  · exact isBlank_of_mem_path h hsuffix c hc
  · exact (inert_render _ c hc).1
  · exact (inert_digitsOf _ c hc).1

theorem shows_lineText : f.Shows timestamp figure (f.lineText timestamp figure) where
  fields := pieces_lineText h timestamp hsuffix
  blankless := by
    rw [pieces_lineText h timestamp hsuffix]
    exact isBlank_of_mem_fields h timestamp hsuffix
  path_ne := by
    intro hempty
    have hprefix := @global_prefix_path f figure h
    rw [hempty, String.toList_empty, List.prefix_nil] at hprefix
    exact h.global_ne (String.toList_inj.mp hprefix)
  semicolons := count_path (.inl rfl) h hsuffix
  equals := count_path (.inr rfl) h hsuffix

theorem lineBreak_notMem_lineText : '\n' ∉ f.lineText timestamp figure := by
  have hblank := isBlank_of_mem_fields h timestamp hsuffix
  intro hmem
  rw [← Text.intercalate_pieces ' ' (f.lineText timestamp figure),
    pieces_lineText h timestamp hsuffix] at hmem
  refine Text.notMem_intercalate (by decide) (fun field hfield hc => ?_) hmem
  exact absurd (hblank field hfield _ hc) (by decide)

end Lines

theorem pieces_flatMap_append (sep : Char) (lines : List (List Char))
    (h : ∀ line ∈ lines, sep ∉ line) :
    Text.pieces sep (lines.flatMap (· ++ [sep])) = lines ++ [[]] := by
  induction lines with
  | nil => rfl
  | cons line rest ih =>
    obtain ⟨hline, hrest⟩ := List.forall_mem_cons.mp h
    rw [List.flatMap_cons, List.append_assoc, List.singleton_append, Text.pieces_append,
      Text.pieces_of_notMem hline, ih hrest]
    rfl

def Format.lineTexts (f : Format) (b : Batch Binary64) : List (List Char) :=
  (figures f.disabled b).map (f.lineText b.timestamp)

theorem toList_render (f : Format) (b : Batch Binary64) :
    (f.render b).toList = (f.lineTexts b).flatMap (· ++ ['\n']) := by
  rw [Format.render, Format.lineTexts, String.toList_join, List.flatMap_map, List.flatMap_map]
  simp only [toList_line]

theorem lineBreak_notMem_lineTexts {f : Format} (h : f.prefixes.Sound) (b : Batch Binary64) :
    ∀ line ∈ f.lineTexts b, '\n' ∉ line :=
  List.forall_mem_map.mpr fun _ hfigure =>
    lineBreak_notMem_lineText h b.timestamp (inert_suffix hfigure)

theorem pieces_render {f : Format} (h : f.prefixes.Sound) (b : Batch Binary64) :
    Text.pieces '\n' (f.render b).toList = f.lineTexts b ++ [[]] := by
  rw [toList_render]
  exact pieces_flatMap_append '\n' _ (lineBreak_notMem_lineTexts h b)

theorem render_lines (f : Format) (h : f.prefixes.Sound) (b : Batch Binary64) :
    ∃ lines, Text.pieces '\n' (f.render b).toList = lines ++ [[]] ∧
      lines.length = lineCount f.disabled b ∧
      List.Forall₂ (f.Shows b.timestamp) (figures f.disabled b) lines := by
  refine ⟨f.lineTexts b, pieces_render h b, ?_, ?_⟩
  · rw [Format.lineTexts, List.length_map, length_figures]
  · rw [Format.lineTexts, List.forall₂_map_right_iff, List.forall₂_same]
    exact fun figure hfigure => shows_lineText h b.timestamp (inert_suffix hfigure)

-- A counter whose name and tags would add a line, a value and a tag if they were kept as they are.
def spoofed : Batch Binary64 where
  timestamp := 1700000000
  counters :=
    [{ series := ⟨"a 1 2\nb;c=d\u2028e", Tags.ofList ["k;x=y:1 2\n", "\u00a0=;"]⟩
       delta := 1, perSecond := .ofNat 2, total := .nan }]
  gauges := []
  sets := []
  timers := []
  events := []

theorem render_lines_spoofed :
    ({} : Prefixes).Sound ∧
      ∃ lines, Text.pieces '\n' (({} : Format).render spoofed).toList = lines ++ [[]] ∧
        lines.length = 2 ∧
        List.Forall₂ (({} : Format).Shows 1700000000) (figures {} spoofed) lines :=
  ⟨Prefixes.sound_default, render_lines {} Prefixes.sound_default spoofed⟩

end StatsDaemon.Graphite
