import StatsDaemon.Proofs.Decimal.RoundTrip
import StatsDaemon.Proofs.Graphite.Lines

namespace StatsDaemon.Graphite

open Decimal (plain magnitudeText_render MagnitudeText)

inductive TimerPart where
  | lower
  | upper
  | count
  | countPerSecond
  | mean
  | median
  | std
  | sum
  | sumSquares
  deriving DecidableEq

inductive CutPart where
  | bound
  | count
  | mean
  | sum
  | sumSquares
  deriving DecidableEq

inductive Part where
  | value
  | count
  | rate
  | timer (part : TimerPart)
  | cut (threshold : Binary64) (part : CutPart)
  deriving DecidableEq

def TimerPart.all : List TimerPart :=
  [.lower, .upper, .count, .countPerSecond, .mean, .median, .std, .sum, .sumSquares]

def TimerPart.suffix : TimerPart → String
  | .lower => "lower"
  | .upper => "upper"
  | .count => "count"
  | .countPerSecond => "count_ps"
  | .mean => "mean"
  | .median => "median"
  | .std => "std"
  | .sum => "sum"
  | .sumSquares => "sum_squares"

def TimerPart.isDisabled (disabled : DisabledFigures) : TimerPart → Bool
  | .lower => disabled.lower
  | .upper => disabled.upper
  | .count => disabled.count
  | .countPerSecond => disabled.countPerSecond
  | .mean => disabled.mean
  | .median => disabled.median
  | .std => disabled.std
  | .sum => disabled.sum
  | .sumSquares => disabled.sumSquares

def TimerPart.of (s : Summary Binary64) : TimerPart → Binary64
  | .lower => s.least
  | .upper => s.greatest
  | .count => .ofNat s.count
  | .countPerSecond => s.perSecond
  | .mean => s.mean
  | .median => s.median
  | .std => s.deviation
  | .sum => s.sum
  | .sumSquares => s.sumSquares

def CutPart.all : List CutPart :=
  [.bound, .count, .mean, .sum, .sumSquares]

-- What stands before the magnitude of the threshold.
def CutPart.lead (lower : Bool) : CutPart → String
  | .bound => if lower then "lower_" else "upper_"
  | .count => "count_" ++ if lower then "lower_" else ""
  | .mean => "mean_" ++ if lower then "lower_" else ""
  | .sum => "sum_" ++ if lower then "lower_" else ""
  | .sumSquares => "sum_squares_" ++ if lower then "lower_" else ""

def CutPart.isDisabled (disabled : DisabledFigures) (lower : Bool) : CutPart → Bool
  | .bound => if lower then disabled.lowerPct else disabled.upperPct
  | .count => disabled.countPct
  | .mean => disabled.meanPct
  | .sum => disabled.sumPct
  | .sumSquares => disabled.sumSquaresPct

def CutPart.of (p : Percentile Binary64) : CutPart → Binary64
  | .bound => p.bound
  | .count => .ofNat p.count
  | .mean => p.mean
  | .sum => p.sum
  | .sumSquares => p.sumSquares

def Part.suffix : Part → String
  | .value => ""
  | .count => "count"
  | .rate => "rate"
  | .timer part => part.suffix
  | .cut threshold part => part.lead (threshold < 0) ++ Percentile.suffixOf threshold

-- A value of a batch that is written in a line of its own.
structure Rendered where
  kind : Kind
  series : Series
  part : Part
  value : Binary64
  deriving DecidableEq

def Rendered.figure (r : Rendered) : Figure :=
  ⟨r.kind, r.series, r.part.suffix, r.value⟩

def timerValues (disabled : DisabledFigures) (t : FlushedTimer Binary64) : List Rendered :=
  ((TimerPart.all.filter fun part => !part.isDisabled disabled).map fun part =>
      ⟨.timer, t.series, .timer part, part.of t.summary⟩)
    ++ t.summary.percentiles.flatMap fun p =>
      (CutPart.all.filter fun part => !part.isDisabled disabled (p.threshold < 0)).map fun part =>
        ⟨.timer, t.series, .cut p.threshold part, part.of p⟩

def values (disabled : DisabledFigures) (b : Batch Binary64) : List Rendered :=
  (b.counters.flatMap fun c =>
      [⟨.counter, c.series, .count, c.delta⟩, ⟨.counter, c.series, .rate, c.perSecond⟩])
    ++ (b.gauges.map fun g => ⟨.gauge, g.series, .value, g.value⟩)
    ++ (b.sets.map fun s => ⟨.set, s.series, .count, .ofNat s.cardinality⟩)
    ++ b.timers.flatMap (timerValues disabled)

section Listing

variable (disabled : DisabledFigures)

theorem timerFigures_eq (s : Summary Binary64) : timerFigures disabled s =
    TimerPart.all.map fun part => (part.suffix, part.isDisabled disabled, part.of s) :=
  rfl

theorem percentileFigures_eq (p : Percentile Binary64) : percentileFigures disabled p =
    CutPart.all.map fun part => ((Part.cut p.threshold part).suffix,
      part.isDisabled disabled (p.threshold < 0), part.of p) := by
  simp only [percentileFigures, Percentile.labelOf, CutPart.all, List.map_cons, List.map_nil,
    Part.suffix, CutPart.lead, CutPart.isDisabled, CutPart.of, decide_eq_true_eq,
    String.append_assoc]

theorem timer_figures_eq (t : FlushedTimer Binary64) :
    FlushedTimer.figures disabled t = (timerValues disabled t).map Rendered.figure := by
  simp only [FlushedTimer.figures, timerValues, timerFigures_eq, percentileFigures_eq,
    List.filter_append, List.map_append, List.filter_flatMap, List.map_flatMap, List.filter_map,
    List.map_map]
  rfl

theorem figures_eq (b : Batch Binary64) :
    figures disabled b = (values disabled b).map Rendered.figure := by
  have htimers : FlushedTimer.figures disabled =
      fun t => (timerValues disabled t).map Rendered.figure := funext (timer_figures_eq disabled)
  simp only [figures, values, List.map_append, List.map_flatMap, List.map_map, htimers]
  rfl

end Listing

def Part.Fits : Kind → Part → Prop
  | .counter, part => part = .count ∨ part = .rate
  | .gauge, part => part = .value
  | .set, part => part = .count
  | .timer, part => (∃ p, part = .timer p) ∨ ∃ threshold p, part = .cut threshold p

theorem fits_of_mem {disabled : DisabledFigures} {b : Batch Binary64} {r : Rendered}
    (h : r ∈ values disabled b) : r.part.Fits r.kind := by
  simp only [values, List.mem_append, List.mem_flatMap, List.mem_map] at h
  rcases h with ((⟨c, -, hc⟩ | ⟨g, -, rfl⟩) | ⟨s, -, rfl⟩) | ⟨t, -, ht⟩
  · simp only [List.mem_cons, List.not_mem_nil, or_false] at hc
    rcases hc with rfl | rfl
    · exact .inl rfl
    · exact .inr rfl
  · exact rfl
  · exact rfl
  · rcases List.mem_append.mp ht with htimer | hcut
    · obtain ⟨part, -, rfl⟩ := List.mem_map.mp htimer
      exact .inl ⟨part, rfl⟩
    · obtain ⟨p, -, hp⟩ := List.mem_flatMap.mp hcut
      obtain ⟨part, -, rfl⟩ := List.mem_map.mp hp
      exact .inr ⟨_, part, rfl⟩

-- Thresholds that make the same cut: of one magnitude, and both from below or both from above.
def SameCut (threshold other : Binary64) : Prop :=
  (threshold < 0 ↔ other < 0) ∧
    (threshold.abs = other.abs ∨ threshold.isNaN = true ∧ other.isNaN = true)

def Part.Same : Part → Part → Prop
  | .cut threshold part, .cut other part' => SameCut threshold other ∧ part = part'
  | part, part' => part = part'

def dotless (c : Char) : Char :=
  if c = '.' then '_' else c

def dotted (c : Char) : Char :=
  if c = '_' then '.' else c

theorem map_dotted_dotless {text : List Char} (h : '_' ∉ text) :
    (text.map dotless).map dotted = text := by
  have hkept : ∀ c ∈ text, dotted (dotless c) = c := by
    intro c hc
    have hne : c ≠ '_' := fun heq => h (heq ▸ hc)
    unfold dotless
    split
    · rename_i hdot
      rw [hdot]
      rfl
    · exact if_neg hne
  rw [List.map_map]
  exact (List.map_congr_left hkept).trans (List.map_id text)

theorem toList_suffixOf (threshold : Binary64) :
    (Percentile.suffixOf threshold).toList = (plain.render threshold.abs).map dotless :=
  String.toList_ofList

theorem suffixOf_eq_iff {threshold other : Binary64} :
    Percentile.suffixOf threshold = Percentile.suffixOf other ↔
      threshold.abs = other.abs ∨ threshold.isNaN = true ∧ other.isNaN = true := by
  have htext := magnitudeText_render threshold
  have hother := magnitudeText_render other
  rw [← String.toList_inj, toList_suffixOf, toList_suffixOf]
  constructor
  · intro h
    have hsame : plain.render threshold.abs = plain.render other.abs := by
      rw [← map_dotted_dotless htext.underscore_notMem, h,
        map_dotted_dotless hother.underscore_notMem]
    rw [hsame] at htext
    exact htext.alike hother
  · rintro (h | ⟨hnan, hnan'⟩)
    · rw [h]
    · have hrender {x : Binary64} (hx : x.isNaN = true) : plain.render x.abs = plain.nan.toList :=
        if_pos ((Binary64.isNaN_abs x).trans hx)
      rw [hrender hnan, hrender hnan']

-- Characters that a magnitude begins with, and none of the words before it has.
def isMark (c : Char) : Bool :=
  c.isDigit || c = 'N' || c = 'i'

def Unmarked (text : List Char) : Prop :=
  ∀ c ∈ text, isMark c = false

instance (text : List Char) : Decidable (Unmarked text) :=
  List.decidableBAll (fun c => isMark c = false) text

theorem unmarked_lead (lower : Bool) (part : CutPart) : Unmarked (part.lead lower).toList := by
  cases lower <;> cases part <;> decide

theorem marked_suffixOf (threshold : Binary64) :
    ∃ c rest, (Percentile.suffixOf threshold).toList = c :: rest ∧ isMark c = true := by
  have htext := magnitudeText_render threshold
  rw [toList_suffixOf]
  generalize plain.render threshold.abs = text at htext ⊢
  cases htext with
  | nan _ => exact ⟨'N', _, rfl, rfl⟩
  | infinity _ => exact ⟨'i', _, rfl, rfl⟩
  | @finite c rest _ hc _ =>
    have hdot : c ≠ '.' := by
      rintro rfl
      exact absurd hc (by decide)
    refine ⟨c, rest.map dotless, ?_, by simp [isMark, hc]⟩
    rw [List.map_cons, dotless, if_neg hdot]

theorem takeWhile_unmarked {before : List Char} (h : Unmarked before) {c : Char}
    (hc : isMark c = true) (rest : List Char) :
    (before ++ c :: rest).takeWhile (!isMark ·) = before := by
  rw [List.takeWhile_append_of_pos (fun d hd => by rw [h d hd]; rfl),
    List.takeWhile_cons_of_neg (by rw [hc]; decide), List.append_nil]

theorem lead_inj {lower lower' : Bool} {part part' : CutPart}
    (h : part.lead lower = part'.lead lower') : lower = lower' ∧ part = part' := by
  revert h
  cases lower <;> cases part <;> cases lower' <;> cases part' <;> decide

theorem suffix_inj {part part' : TimerPart} (h : part.suffix = part'.suffix) : part = part' := by
  revert h
  cases part <;> cases part' <;> decide

theorem cut_suffix_eq_iff {threshold other : Binary64} {part part' : CutPart} :
    (Part.cut threshold part).suffix = (Part.cut other part').suffix ↔
      SameCut threshold other ∧ part = part' := by
  obtain ⟨c, rest, htext, hc⟩ := marked_suffixOf threshold
  obtain ⟨c', rest', htext', hc'⟩ := marked_suffixOf other
  constructor
  · intro h
    have hlists := congrArg String.toList h
    rw [Part.suffix, Part.suffix, String.toList_append, String.toList_append, htext, htext']
      at hlists
    have hlead := congrArg (List.takeWhile (!isMark ·)) hlists
    rw [takeWhile_unmarked (unmarked_lead _ _) hc, takeWhile_unmarked (unmarked_lead _ _) hc']
      at hlead
    have hrest := List.append_cancel_left (hlead ▸ hlists)
    obtain ⟨hlower, rfl⟩ := lead_inj (String.toList_inj.mp hlead)
    rw [← htext, ← htext', String.toList_inj, suffixOf_eq_iff] at hrest
    exact ⟨⟨decide_eq_decide.mp hlower, hrest⟩, rfl⟩
  · rintro ⟨⟨hlower, hmagnitude⟩, rfl⟩
    rw [Part.suffix, Part.suffix, suffixOf_eq_iff.mpr hmagnitude, decide_eq_decide.mpr hlower]

theorem timer_suffix_ne_cut (part : TimerPart) (threshold : Binary64) (part' : CutPart) :
    part.suffix ≠ (Part.cut threshold part').suffix := by
  have hlead : ∀ lower, part.suffix.toList.takeWhile (!isMark ·) ≠ (part'.lead lower).toList := by
    intro lower
    cases part <;> cases lower <;> cases part' <;> decide
  obtain ⟨c, rest, htext, hc⟩ := marked_suffixOf threshold
  intro h
  refine hlead (threshold < 0) ?_
  rw [h, Part.suffix, String.toList_append, htext, takeWhile_unmarked (unmarked_lead _ _) hc]

theorem suffix_eq_iff {kind : Kind} {p q : Part} (hp : p.Fits kind) (hq : q.Fits kind) :
    p.suffix = q.suffix ↔ p.Same q := by
  cases kind with
  | counter =>
    rcases hp with rfl | rfl <;> rcases hq with rfl | rfl <;> simp [Part.suffix, Part.Same]
  | gauge =>
    obtain rfl := hp
    obtain rfl := hq
    exact iff_of_true rfl rfl
  | set =>
    obtain rfl := hp
    obtain rfl := hq
    exact iff_of_true rfl rfl
  | timer =>
    rcases hp with ⟨part, rfl⟩ | ⟨threshold, part, rfl⟩ <;>
      rcases hq with ⟨part', rfl⟩ | ⟨other, part', rfl⟩
    · exact ⟨fun h => congrArg Part.timer (suffix_inj h), fun h => congrArg Part.suffix h⟩
    · exact iff_of_false (timer_suffix_ne_cut part other part') (by simp [Part.Same])
    · exact iff_of_false (timer_suffix_ne_cut part' threshold part).symm (by simp [Part.Same])
    · exact cut_suffix_eq_iff

theorem point_notMem_suffix (p : Part) : '.' ∉ p.suffix.toList := by
  cases p with
  | value => decide
  | count => decide
  | rate => decide
  | timer part => cases part <;> decide
  | cut threshold part =>
    have hlead : '.' ∉ (part.lead (threshold < 0)).toList := by
      cases part <;> cases decide (threshold < 0) <;> decide
    rw [Part.suffix, String.toList_append, List.mem_append, not_or, toList_suffixOf]
    refine ⟨hlead, fun hmem => ?_⟩
    obtain ⟨c, -, hc⟩ := List.mem_map.mp hmem
    unfold dotless at hc
    split at hc
    · cases hc
    · exact absurd hc ‹_›

theorem suffix_ne_empty {kind : Kind} {p : Part} (h : p.Fits kind) (hkind : kind ≠ .gauge) :
    p.suffix ≠ "" := by
  cases kind with
  | gauge => exact absurd rfl hkind
  | counter => rcases h with rfl | rfl <;> decide
  | set => obtain rfl := h; decide
  | timer =>
    rcases h with ⟨part, rfl⟩ | ⟨threshold, part, rfl⟩
    · cases part <;> decide
    · obtain ⟨c, rest, htext, -⟩ := marked_suffixOf threshold
      intro hempty
      have := congrArg String.toList hempty
      rw [Part.suffix, String.toList_append, htext] at this
      simp at this

end StatsDaemon.Graphite
