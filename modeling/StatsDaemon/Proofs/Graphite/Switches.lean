import StatsDaemon.Proofs.Binary64.Bounds
import StatsDaemon.Proofs.Graphite.Parts

namespace StatsDaemon.Graphite

def Part.isDisabled (disabled : DisabledFigures) : Part → Bool
  | .value | .count | .rate => false
  | .timer part => part.isDisabled disabled
  | .cut threshold part => part.isDisabled disabled (threshold < 0)

section Filter

variable (disabled : DisabledFigures)

theorem timerPart_isDisabled_none (part : TimerPart) : part.isDisabled {} = false := by
  cases part <;> rfl

theorem cutPart_isDisabled_none (lower : Bool) (part : CutPart) :
    part.isDisabled {} lower = false := by
  cases part <;> cases lower <;> rfl

theorem timerValues_eq_filter (t : FlushedTimer Binary64) :
    timerValues disabled t =
      (timerValues {} t).filter fun r => !r.part.isDisabled disabled := by
  simp only [timerValues, timerPart_isDisabled_none, cutPart_isDisabled_none, Bool.not_false,
    List.filter_true, List.filter_append, List.filter_flatMap, List.filter_map]
  rfl

theorem values_eq_filter (b : Batch Binary64) :
    values disabled b = (values {} b).filter fun r => !r.part.isDisabled disabled := by
  have htimers : timerValues disabled =
      fun t => (timerValues {} t).filter fun r => !r.part.isDisabled disabled :=
    funext (timerValues_eq_filter disabled)
  simp only [values, htimers, List.filter_append, List.filter_flatMap, List.filter_map,
    Function.comp_def, Part.isDisabled, Bool.not_false, List.filter_cons, List.filter_nil, if_true,
    List.filter_true]

end Filter

theorem render_eq_join (f : Format) (b : Batch Binary64) :
    f.render b = String.join ((values f.disabled b).map fun r => f.line b.timestamp r.figure) := by
  rw [Format.render, figures_eq, List.map_map]
  rfl

theorem kind_of_isDisabled {disabled : DisabledFigures} {b : Batch Binary64} {r : Rendered}
    (hr : r ∈ values {} b) (h : r.part.isDisabled disabled = true) : r.kind = .timer := by
  have hfits := fits_of_mem hr
  cases hkind : r.kind with
  | timer => rfl
  | counter =>
    rw [hkind] at hfits
    rcases hfits with hpart | hpart <;> rw [hpart] at h <;> cases h
  | gauge | set =>
    rw [hkind] at hfits
    rw [show r.part = _ from hfits] at h
    cases h

-- Setting switches takes the lines of these figures out of the text, which are all of timers, and
-- leaves the others as they were.
theorem disabled_lines_left_out (f : Format) (disabled : DisabledFigures) (b : Batch Binary64) :
    let line (r : Rendered) := f.line b.timestamp r.figure
    ({ f with disabled := {} } : Format).render b = String.join ((values {} b).map line) ∧
      ({ f with disabled } : Format).render b =
        String.join (((values {} b).filter fun r => !r.part.isDisabled disabled).map line) ∧
      ∀ r ∈ values {} b, r.part.isDisabled disabled = true → r.kind = .timer := by
  refine ⟨render_eq_join _ b, ?_, fun r hr => kind_of_isDisabled hr⟩
  rw [← values_eq_filter]
  exact render_eq_join _ b

theorem eq_of_sameCut {threshold other : Binary64}
    (h : threshold.isFinite = true ∧ threshold.isZero = false)
    (h' : other.isFinite = true ∧ other.isZero = false) (hsame : SameCut threshold other) :
    threshold = other := by
  obtain ⟨hlower, hmagnitude⟩ := hsame
  rw [Binary64.lt_zero_iff_isNegative h.1 h.2, Binary64.lt_zero_iff_isNegative h'.1 h'.2,
    ← Bool.eq_iff_iff] at hlower
  have hnan := Binary64.isNaN_of_isFinite h.1
  rcases hmagnitude with habs | ⟨hnan', -⟩
  · rw [← threshold.withSign_abs, ← other.withSign_abs, habs, hlower]
  · rw [hnan] at hnan'
    cases hnan'

def timerParts (disabled : DisabledFigures) (s : Summary Binary64) : List Part :=
  (TimerPart.all.filter fun part => !part.isDisabled disabled).map Part.timer
    ++ s.percentiles.flatMap fun p =>
      (CutPart.all.filter fun part => !part.isDisabled disabled (p.threshold < 0)).map
        (Part.cut p.threshold)

theorem map_suffix_figures (disabled : DisabledFigures) (t : FlushedTimer Binary64) :
    (FlushedTimer.figures disabled t).map Figure.suffix =
      (timerParts disabled t.summary).map Part.suffix := by
  simp only [timer_figures_eq, timerValues, timerParts, List.map_append, List.map_flatMap,
    List.map_map]
  rfl

section Names

variable {disabled : DisabledFigures} {s : Summary Binary64}

theorem fits_of_mem_timerParts {part : Part} (h : part ∈ timerParts disabled s) :
    part.Fits .timer := by
  rcases List.mem_append.mp h with htimer | hcut
  · obtain ⟨p, -, rfl⟩ := List.mem_map.mp htimer
    exact .inl ⟨p, rfl⟩
  · obtain ⟨p, -, hp⟩ := List.mem_flatMap.mp hcut
    obtain ⟨q, -, rfl⟩ := List.mem_map.mp hp
    exact .inr ⟨_, q, rfl⟩

theorem threshold_of_cut_mem {threshold : Binary64} {part : CutPart}
    (h : .cut threshold part ∈ timerParts disabled s) : ∃ p ∈ s.percentiles, p.threshold = threshold := by
  rcases List.mem_append.mp h with htimer | hcut
  · obtain ⟨p, -, hp⟩ := List.mem_map.mp htimer
    cases hp
  · obtain ⟨p, hmem, hp⟩ := List.mem_flatMap.mp hcut
    obtain ⟨q, -, hq⟩ := List.mem_map.mp hp
    cases hq
    exact ⟨p, hmem, rfl⟩

theorem nodup_timerParts (hdistinct : (s.percentiles.map Percentile.threshold).Nodup) :
    (timerParts disabled s).Nodup := by
  have hcuts (p : Percentile Binary64) :
      ((CutPart.all.filter fun part => !part.isDisabled disabled (p.threshold < 0)).map
        (Part.cut p.threshold)).Nodup :=
    ((by decide : CutPart.all.Nodup).filter _).map fun _ _ h => (Part.cut.inj h).2
  refine List.Nodup.append ?_ ?_ ?_
  · exact ((by decide : TimerPart.all.Nodup).filter _).map fun _ _ => Part.timer.inj
  · refine List.nodup_flatMap.mpr ⟨fun p _ => hcuts p, ?_⟩
    refine (List.pairwise_map.mp hdistinct).imp fun hne => ?_
    intro part hpart hpart'
    obtain ⟨q, -, rfl⟩ := List.mem_map.mp hpart
    obtain ⟨q', -, hq⟩ := List.mem_map.mp hpart'
    exact hne (Part.cut.inj hq).1.symm
  · intro part htimer hcut
    obtain ⟨q, -, rfl⟩ := List.mem_map.mp htimer
    obtain ⟨p, -, hp⟩ := List.mem_flatMap.mp hcut
    obtain ⟨q', -, hq⟩ := List.mem_map.mp hp
    cases hq

end Names

-- No two figures of a timer have one name if its thresholds are different numbers.
theorem nodup_suffixes (disabled : DisabledFigures) (t : FlushedTimer Binary64)
    (distinct : (t.summary.percentiles.map Percentile.threshold).Nodup)
    (proper : ∀ p ∈ t.summary.percentiles,
      p.threshold.isFinite = true ∧ p.threshold.isZero = false) :
    ((FlushedTimer.figures disabled t).map Figure.suffix).Nodup := by
  rw [map_suffix_figures]
  refine List.Nodup.map_on (fun part hpart part' hpart' hsuffix => ?_) (nodup_timerParts distinct)
  have hsame := (suffix_eq_iff (fits_of_mem_timerParts hpart) (fits_of_mem_timerParts hpart')).mp
    hsuffix
  unfold Part.Same at hsame
  split at hsame
  · obtain ⟨hcut, rfl⟩ := hsame
    obtain ⟨p, hp, rfl⟩ := threshold_of_cut_mem hpart
    obtain ⟨q, hq, rfl⟩ := threshold_of_cut_mem hpart'
    rw [eq_of_sameCut (proper p hp) (proper q hq) hcut]
  · exact hsame

def fourCuts : FlushedTimer Binary64 where
  series := ⟨"latency.p", Tags.ofList ["env:prod"]⟩
  summary :=
    { count := 2, sampledCount := 2, perSecond := 2, sum := 4, sumSquares := 10, least := 1,
      greatest := 3, mean := 2, median := 2, deviation := 1,
      percentiles :=
        [⟨.ofNat 90, 3, 2, 2, 4, 10⟩, ⟨(Binary64.ofNat 90).withSign true, 1, 2, 2, 4, 10⟩,
          ⟨⟨0x4058f9999999999a⟩, 3, 2, 2, 4, 10⟩, ⟨⟨0xbfe0000000000000⟩, 3, 1, 3, 3, 9⟩] }

theorem fourCuts_nodup :
    (fourCuts.summary.percentiles.map Percentile.threshold).Nodup ∧
      (∀ p ∈ fourCuts.summary.percentiles,
        p.threshold.isFinite = true ∧ p.threshold.isZero = false) ∧
      ((FlushedTimer.figures {} fourCuts).map Figure.suffix).Nodup := by
  have hdistinct : (fourCuts.summary.percentiles.map Percentile.threshold).Nodup := by
    decide +kernel
  have hproper : ∀ p ∈ fourCuts.summary.percentiles,
      p.threshold.isFinite = true ∧ p.threshold.isZero = false := by
    decide +kernel
  exact ⟨hdistinct, hproper, nodup_suffixes {} fourCuts hdistinct hproper⟩

end StatsDaemon.Graphite
