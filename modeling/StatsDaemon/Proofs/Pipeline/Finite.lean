import StatsDaemon.Pipeline.Intake
import StatsDaemon.Proofs.Batch.Written
import StatsDaemon.Proofs.Binary64.Bounds
import StatsDaemon.Proofs.Line.Numbers

namespace StatsDaemon

open Binary64

theorem atLeast_seconds {milliseconds : ℕ} (hpos : 0 < milliseconds)
    (h : milliseconds < 2 ^ 64) : AtLeast (-11) (Number.seconds milliseconds : Binary64) := by
  have hwhole : Within 64 (ofNat (milliseconds / 1000)) :=
    within_ofNat (j := 64) (by omega) (by norm_num)
  have hnumerator : Within 30 (ofNat (milliseconds % 1000 * 1000000)) :=
    within_ofNat (j := 30) (by omega) (by norm_num)
  have hdenominator : AtLeast 0 (ofNat 1000000000) := atLeast_ofNat (j := 0) (by norm_num) (by norm_num)
  have hfraction := hnumerator.div hdenominator (by norm_num) (by norm_num)
  obtain ⟨v, hv, hvpos, hvle⟩ := hwhole.magnitude (nonneg_ofNat _)
  obtain ⟨w, hw, hwpos, hwle⟩ := hfraction.magnitude ((nonneg_ofNat _).div hdenominator)
  suffices hsum : (2 : ℚ) ^ (-11 : ℤ) ≤ v + w by
    refine (settles_add hv hw).atLeast (by norm_num) hsum ((add_le_add hvle hwle).trans ?_)
    calc (2 : ℚ) ^ (64 : ℤ) + 2 ^ (30 - 0 : ℤ) ≤ 2 ^ (65 : ℤ) := by norm_num
      _ ≤ 2 ^ (1023 : ℤ) := zpow_le_zpow_right₀ one_le_two (by norm_num)
  -- One of the parts is large enough by itself.
  rcases Nat.lt_or_ge milliseconds 1000 with hshort | hlong
  · have hmillisecond : AtLeast 19 (ofNat (milliseconds % 1000 * 1000000)) :=
      atLeast_ofNat (j := 19) (by omega) (by omega)
    have hsecond : Within 30 (ofNat 1000000000) := within_ofNat (j := 30) (by norm_num) (by norm_num)
    obtain ⟨w', hw', hge⟩ := hmillisecond.div hnumerator hdenominator hsecond (by norm_num)
      (by norm_num)
    rw [hw.unique hw']
    exact hge.trans (le_add_of_nonneg_left hvpos)
  · obtain ⟨v', hv', hge⟩ := atLeast_ofNat (n := milliseconds / 1000) (j := 0) (by omega) (by omega)
    rw [hv.unique hv']
    calc (2 : ℚ) ^ (-11 : ℤ) ≤ 2 ^ ((0 : ℕ) : ℤ) := zpow_le_zpow_right₀ one_le_two (by norm_num)
      _ ≤ v' := hge
      _ ≤ v' + w := le_add_of_nonneg_right hwpos

theorem shows_emptySum : Shows (Number.emptySum : Binary64).decoded 0 :=
  shows_zero .negative

theorem within_zero {k : ℤ} (hk : -1074 ≤ k) (hk' : k ≤ 1023) :
    Within k (Number.zero : Binary64) := by
  refine (settles_ofNat 0).within hk hk' ?_
  rw [Nat.cast_zero, abs_zero]
  positivity

def nonnegTally : Tally Binary64 where
  term := Nonneg
  part := Nonneg
  whole := Nonneg
  zero := nonneg_ofNat 0
  first := id
  add := Binary64.Nonneg.add
  start := nonneg_ofNat 0
  joined := id
  join := Binary64.Nonneg.add

theorem atLeast_count {n : ℕ} (hpos : 0 < n) (h : n < 2 ^ 64) :
    AtLeast 0 (Number.ofNat n : Binary64) :=
  atLeast_ofNat (j := 0) hpos h

-- Finite samples give sums, squares and means that may be infinite, and no step of the computation
-- meets infinities that cancel.
def extended : Calculus Binary64 where
  value x := x.isFinite = true
  increments := nonnegTally
  weights := nonnegTally
  total := Extended
  square := Nonneg
  squares := Nonneg
  mean := Extended
  deviation := Nonneg
  deviations := Nonneg
  figure := Extended
  totals := ⟨.inl (isFinite_of_shows shows_emptySum), Extended.add⟩
  square_of hx := Extended.mul_self (.inl hx)
  totals_squares := ⟨.inl ⟨0, shows_emptySum, le_rfl⟩, Binary64.Nonneg.add⟩
  mean_of hs hpos h := hs.div (atLeast_count hpos h)
  deviation_of hx hm := (Extended.sub hx hm).mul_self
  totals_deviations := ⟨.inl ⟨0, shows_emptySum, le_rfl⟩, Binary64.Nonneg.add⟩
  figure_value := .inl
  figure_total := id
  figure_squares := Nonneg.extended
  figure_mean := id
  figure_median hx hy := (Extended.add (.inl hx) hy).div (atLeast_count two_pos (by norm_num))
  figure_deviation hs hpos h := (hs.div (atLeast_count hpos h)).sqrt.extended
  figure_increments h := Nonneg.extended h
  figure_weights h := Nonneg.extended h

-- Terms of any number, with room for a factor of `2 ^ 54` in each sum.
def boundedTally (k : ℤ) (hk : -1074 ≤ k) (hk' : k + 108 ≤ 1023) : Tally Binary64 where
  term := Within k
  part := Within (k + 54)
  whole := Within (k + 54 + 54)
  zero := within_zero (by omega) (by omega)
  first h := h.mono (by omega)
  add hs hx := hs.add_term hx hk (by omega)
  start := within_zero (by omega) (by omega)
  joined h := h.mono (by omega)
  join hs hx := hs.add_term hx (by omega) (by omega)

theorem adds_within {k : ℤ} (hk : -1074 ≤ k) (hk' : k + 54 ≤ 1023) :
    Adds (Within k) (Within (k + 54)) where
  empty := ⟨0, shows_emptySum, by rw [abs_zero]; positivity⟩
  add hs hx := hs.add_term hx hk hk'

theorem adds_within_nonneg {k : ℤ} (hk : -1074 ≤ k) (hk' : k + 54 ≤ 1023) :
    Adds (fun x => Within k x ∧ Nonneg x) (fun x => Within (k + 54) x ∧ Nonneg x) where
  empty := ⟨(adds_within hk hk').empty, .inl ⟨0, shows_emptySum, le_rfl⟩⟩
  add hs hx := ⟨hs.1.add_term hx.1 hk hk', hs.2.add hx.2⟩

theorem Binary64.Within.mean {k : ℤ} {x : Binary64} {n : ℕ} (hx : Within k x) (hk : -1074 ≤ k)
    (hk' : k ≤ 1023) (hpos : 0 < n) (h : n < 2 ^ 64) : Within k (x / Number.ofNat n) := by
  have hmean := hx.div (atLeast_count hpos h) (by omega) (by omega)
  rwa [sub_zero] at hmean

def moderate : Calculus Binary64 where
  value := Within 400
  increments := boundedTally (400 - -400) (by norm_num) (by norm_num)
  weights := boundedTally (0 - -400) (by norm_num) (by norm_num)
  total := Within (400 + 54)
  square := Within (2 * 400)
  squares := Within (2 * 400 + 54)
  mean := Within (400 + 54)
  deviation x := Within (2 * (400 + 54 + 1)) x ∧ Nonneg x
  deviations x := Within (2 * (400 + 54 + 1) + 54) x ∧ Nonneg x
  figure x := x.isFinite = true
  totals := adds_within (by norm_num) (by norm_num)
  square_of hx := hx.mul_self (by norm_num) (by norm_num)
  totals_squares := adds_within (by norm_num) (by norm_num)
  mean_of hs hpos h := hs.mean (by norm_num) (by norm_num) hpos h
  deviation_of {x m} hx hm :=
    have hgap := (hx.mono (by norm_num)).sub hm (by norm_num) (by norm_num)
    ⟨hgap.mul_self (by norm_num) (by norm_num), Extended.mul_self (.inl hgap.isFinite)⟩
  totals_deviations := adds_within_nonneg (by norm_num) (by norm_num)
  figure_value := Within.isFinite
  figure_total := Within.isFinite
  figure_squares := Within.isFinite
  figure_mean := Within.isFinite
  figure_median hx hy := ((hx.add hy (by norm_num) (by norm_num)).mean (by norm_num) (by norm_num)
    two_pos (by norm_num)).isFinite
  figure_deviation hs hpos h :=
    (Within.sqrt (k := 482) (hs.1.mean (by norm_num) (by norm_num) hpos h)
      (hs.2.div (atLeast_count hpos h)) (by norm_num) (by norm_num)).isFinite
  figure_increments := Within.isFinite
  figure_weights := Within.isFinite

theorem extended_perSecond {interval : ℕ} (hpos : 0 < interval) (h : interval < 2 ^ 64)
    {x : Binary64} (hx : Nonneg x) : Extended (Number.perSecond x interval) := by
  unfold Number.perSecond
  dsimp only
  split
  · exact (hx.div (atLeast_seconds hpos h)).extended
  · exact (nonneg_ofNat 0).extended

theorem isFinite_perSecond {interval : ℕ} (hpos : 0 < interval) (h : interval < 2 ^ 64)
    {x : Binary64} {k : ℤ} (hx : Within k x) (hk : -1085 ≤ k) (hk' : k ≤ 1012) :
    (Number.perSecond x interval).isFinite = true := by
  unfold Number.perSecond
  dsimp only
  split
  · exact (hx.div (atLeast_seconds hpos h) (by omega) (by omega)).isFinite
  · exact (within_zero (k := 0) (by norm_num) (by norm_num)).isFinite

-- All metrics are read from lines, and cycles have the settings of the daemon.
def Action.FromLines (c : Config.Aggregation) : Action Binary64 → Prop
  | .dispatch records _ => ∀ m ∈ records.metrics,
      ∃ rules source data, .ok (.metric m) ∈ Line.readAll rules source data
  | .collect thresholds interval _ => thresholds = c.percentiles ∧ interval = c.flushInterval
  | _ => True

structure Metric.Moderate (m : Metric Binary64) : Prop where
  value : match m.value with
    | .counter x | .gauge x | .timer x => Within 400 x
    | .set _ => True
  rate : AtLeast (-400) m.sampleRate

def Action.Moderate : Action Binary64 → Prop
  | .dispatch records _ => ∀ m ∈ records.metrics, m.Moderate
  | _ => True

structure Batch.Numeric (b : Batch Binary64) : Prop where
  observed : ∀ x ∈ b.observed, x.isFinite = true
  numbers : ∀ x ∈ b.numbers, x.isNaN = false
  json : b.toJson.Only fun x => x.isNaN = false
  lines : ∀ disabled, ∀ f ∈ Graphite.figures disabled b, f.value.isNaN = false

-- What holds if nothing overflows. The lines have digits, points and signs for values.
structure Batch.Finite (b : Batch Binary64) : Prop where
  numbers : ∀ x ∈ b.numbers, x.isFinite = true
  json : b.toJson.Only fun x => x.isFinite = true
  lines : ∀ disabled, ∀ f ∈ Graphite.figures disabled b,
    ∀ char ∈ (Decimal.plainText f.value).toList, Decimal.IsPlain char

theorem admits_extended {m : Metric Binary64} (h : m.Checked) :
    extended.Admits m.value m.sampleRate := by
  have hrate := atLeast_of_pos (isFinite_of_between h.rate.1 h.rate.2) h.rate.1
  have hvalue := h.value
  unfold Regime.Admits
  split <;> rename_i heq <;> rw [heq] at hvalue
  · exact (nonneg_of_not_lt hvalue.1 hvalue.2).div hrate
  · exact hvalue
  · trivial
  · exact ⟨hvalue, (nonneg_ofNat 1).div hrate⟩

theorem admits_moderate {m : Metric Binary64} (h : m.Moderate) :
    moderate.Admits m.value m.sampleRate := by
  have hvalue := h.value
  unfold Regime.Admits
  split <;> rename_i heq <;> rw [heq] at hvalue
  · exact hvalue.div h.rate (by norm_num) (by norm_num)
  · exact hvalue
  · trivial
  · exact ⟨hvalue, (within_ofNat (j := 0) le_rfl (by norm_num)).div h.rate (by norm_num)
      (by norm_num)⟩

theorem isNaN_ofNat (n : ℕ) : (ofNat n).isNaN = false :=
  (nonneg_ofNat n).extended.isNaN

theorem Batch.numeric_of_makes {thresholds : List Binary64} {interval : ℕ} {b : Batch Binary64}
    (hthresholds : ∀ x ∈ thresholds, x.isFinite = true) (hpos : 0 < interval)
    (hinterval : interval < 2 ^ 64) (hb : extended.Makes thresholds interval b)
    (hcount : b.Countable) : b.Numeric := by
  obtain ⟨hnumbers, hobserved⟩ := Calculus.numbers_of_makes (K := extended)
    (fun x hx => extended_perSecond hpos hinterval (hx.elim (fun h => h) (fun h => h)))
    (fun x hx => .inl (hthresholds x hx)) hb hcount
  have hnan : ∀ x ∈ b.numbers, x.isNaN = false := fun x hx => (hnumbers x hx).isNaN
  refine ⟨fun x hx => (hobserved x hx).elim id (hthresholds x), hnan, only_toJson hnan, ?_⟩
  intro disabled f hf
  rcases Graphite.value_of_mem_figures hf with hnumber | ⟨n, -, hcount⟩
  · exact hnan _ hnumber
  · rw [hcount]
    exact isNaN_ofNat n

theorem Batch.finite_of_makes {thresholds : List Binary64} {interval : ℕ} {b : Batch Binary64}
    (hthresholds : ∀ x ∈ thresholds, x.isFinite = true) (hpos : 0 < interval)
    (hinterval : interval < 2 ^ 64) (hb : moderate.Makes thresholds interval b)
    (hcount : b.Countable) : b.Finite := by
  obtain ⟨hnumbers, -⟩ := Calculus.numbers_of_makes (K := moderate)
    (fun x hx => hx.elim
      (fun h => isFinite_perSecond hpos hinterval h (by norm_num) (by norm_num))
      (fun h => isFinite_perSecond hpos hinterval h (by norm_num) (by norm_num)))
    hthresholds hb hcount
  refine ⟨hnumbers, only_toJson hnumbers, ?_⟩
  intro disabled f hf
  rw [Decimal.plainText, String.toList_ofList]
  refine Decimal.isPlain_of_mem_render _ ?_
  rcases Graphite.value_of_mem_figures hf with hnumber | ⟨n, hn, hvalue⟩
  · exact hnumbers _ hnumber
  · rw [hvalue]
    exact (within_ofNat (j := 64) (hcount n hn).le (by norm_num)).isFinite

theorem numbers_of_run (c : Config.Aggregation) (hc : c.validate = .ok ())
    (hinterval : c.flushInterval < 2 ^ 64) (starts : List ℕ) (hosts : Option Hosts.Directory)
    (actions : List (Action Binary64)) (hactions : ∀ a ∈ actions, a.FromLines c) :
    ∀ b ∈ ((System.start c starts hosts).run actions).batches, b.Countable →
      b.Numeric ∧ ((∀ a ∈ actions, a.Moderate) → b.Finite) := by
  intro b hb hcount
  obtain ⟨-, hne, hpercentiles⟩ := c.validate_eq_ok_iff.mp hc
  have hpos : 0 < c.flushInterval := Nat.pos_of_ne_zero hne
  have hthresholds : ∀ x ∈ c.percentiles, x.isFinite = true := by
    intro x hx
    have hpercentile := hpercentiles x hx
    simp only [Config.Aggregation.isPercentile, Bool.and_eq_true] at hpercentile
    exact hpercentile.1.1
  constructor
  · have hfollows : ∀ a ∈ actions, extended.Follows c.percentiles c.flushInterval a := by
      intro a ha
      have hlines := hactions a ha
      cases a with
      | dispatch records now =>
        intro m hm
        obtain ⟨rules, source, data, hread⟩ := hlines m hm
        exact admits_extended (Line.checked_of_readAll hread)
      | collect => exact hlines
      | _ => trivial
    have hrules := (Regime.rules_start c starts hosts).run hfollows
    exact Batch.numeric_of_makes hthresholds hpos hinterval (hrules.batches b hb) hcount
  · intro hmoderate
    have hfollows : ∀ a ∈ actions, moderate.Follows c.percentiles c.flushInterval a := by
      intro a ha
      have hlines := hactions a ha
      have hsmall := hmoderate a ha
      cases a with
      | dispatch records now => exact fun m hm => admits_moderate (hsmall m hm)
      | collect => exact hlines
      | _ => trivial
    have hrules := (Regime.rules_start c starts hosts).run hfollows
    exact Batch.finite_of_makes hthresholds hpos hinterval (hrules.batches b hb) hcount

def cycleOf (lines : String) : List (Action Binary64) :=
  [.dispatch (Pipeline.Intake.recordsOf (Line.readAll {} none lines.toUTF8.toList)) 0, .fold 0 0,
    .ask false, .answer 0 1, .collect [90] 1000 1]

theorem fromLines_cycleOf (lines : String) : ∀ a ∈ cycleOf lines, a.FromLines { workers := 1 } := by
  simp only [cycleOf, List.forall_mem_cons]
  refine ⟨fun m hm => ⟨{}, none, lines.toUTF8.toList, ?_⟩, trivial, trivial, trivial, ⟨rfl, rfl⟩,
    List.forall_mem_nil _⟩
  obtain ⟨result, hresult, hm⟩ := List.mem_filterMap.mp hm
  split at hm
  · cases hm
    exact hresult
  · cases hm

theorem small_numbers_finite :
    let c : Config.Aggregation := { workers := 1 }
    let actions := cycleOf "hits:3|c\nload:2|g\nwait:20|ms"
    c.validate = .ok () ∧ c.flushInterval < 2 ^ 64 ∧ (∀ a ∈ actions, a.FromLines c) ∧
    (∀ a ∈ actions, a.Moderate) ∧
    ∃ b ∈ ((System.start c [0] none).run actions).batches,
      b.Countable ∧ b.numbers.length = 18 ∧ b.Numeric ∧ b.Finite := by
  intro c actions
  have hchecked : c.validate = .ok () := by decide +kernel
  have hlines := fromLines_cycleOf "hits:3|c\nload:2|g\nwait:20|ms"
  have hmetrics : (Pipeline.Intake.recordsOf (Line.readAll {} none
      "hits:3|c\nload:2|g\nwait:20|ms".toUTF8.toList)).metrics =
        [⟨"hits", .counter 3, 1, .empty, none⟩, ⟨"load", .gauge 2, 1, .empty, none⟩,
          ⟨"wait", .timer 20, 1, .empty, none⟩] := by
    decide +kernel
  have hsmall : ∀ n ≤ 2 ^ 5, Within 400 (ofNat n) := fun n hn =>
    (within_ofNat hn (by norm_num)).mono (by norm_num)
  have hone : AtLeast (-400) (1 : Binary64) :=
    (atLeast_ofNat (j := 0) (n := 1) (by norm_num) (by norm_num)).mono (by norm_num)
  have hmoderate : ∀ a ∈ actions, a.Moderate := by
    simp only [actions, cycleOf, List.forall_mem_cons, Action.Moderate, hmetrics]
    exact ⟨⟨⟨hsmall 3 (by norm_num), hone⟩, ⟨hsmall 2 (by norm_num), hone⟩,
      ⟨hsmall 20 (by norm_num), hone⟩, List.forall_mem_nil _⟩, trivial, trivial, trivial, trivial,
      List.forall_mem_nil _⟩
  have hbatch : ∀ b ∈ ((System.start c [0] none).run actions).batches,
      (∀ n ∈ b.counts, n < 2 ^ 64) ∧ b.numbers.length = 18 := by
    decide +kernel
  obtain ⟨b, hb⟩ : ∃ b, b ∈ ((System.start c [0] none).run actions).batches :=
    List.exists_mem_of_length_pos (by decide +kernel)
  obtain ⟨hcount, hlength⟩ := hbatch b hb
  obtain ⟨hnumeric, hfinite⟩ :=
    numbers_of_run c hchecked (by decide) [0] none actions hlines b hb hcount
  exact ⟨hchecked, by decide, hlines, hmoderate, b, hb, hcount, hlength, hnumeric,
    hfinite hmoderate⟩

-- One line is enough for an infinite increment, and the total stays infinite from then on.
theorem large_increment_overflows :
    let c : Config.Aggregation := { workers := 1 }
    let actions := cycleOf "hits:1e308|c|@0.1"
    c.validate = .ok () ∧ (∀ a ∈ actions, a.FromLines c) ∧
    ∃ b ∈ ((System.start c [0] none).run actions).batches,
      b.Countable ∧ b.numbers.map Binary64.isFinite = [false, false, false] ∧
      b.toJson.text = "\x7b\"timestamp\":1,\"counters\":[\x7b\"name\":\"hits\",\"tags\":[]," ++
        "\"delta\":null,\"per_second\":null,\"total\":null\x7d],\"gauges\":[],\"sets\":[]," ++
        "\"timers\":[],\"events\":[]\x7d" ∧
      Graphite.Format.render {} b =
        "stats.counters.hits.count inf 1\nstats.counters.hits.rate inf 1\n" := by
  refine ⟨by decide +kernel, fromLines_cycleOf _, ?_⟩
  decide +kernel

end StatsDaemon
