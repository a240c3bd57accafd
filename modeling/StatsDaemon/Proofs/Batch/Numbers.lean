import StatsDaemon.Proofs.Batch.Sorted
import StatsDaemon.Proofs.Pipeline.Regime

namespace StatsDaemon

variable {α : Type}

def FlushedCounter.numbers (c : FlushedCounter α) : List α :=
  [c.delta, c.perSecond, c.total]

def Percentile.numbers (p : Percentile α) : List α :=
  [p.threshold, p.bound, p.mean, p.sum, p.sumSquares]

def Summary.numbers (s : Summary α) : List α :=
  [s.sampledCount, s.perSecond, s.sum, s.sumSquares, s.least, s.greatest, s.mean, s.median,
    s.deviation] ++ s.percentiles.flatMap Percentile.numbers

-- Numbers that are not computed: the samples at either end and at the cuts, and the thresholds.
def Summary.observed (s : Summary α) : List α :=
  s.least :: s.greatest :: s.percentiles.flatMap fun p => [p.threshold, p.bound]

namespace Batch

-- All numbers but the counts.
def numbers (b : Batch α) : List α :=
  b.counters.flatMap FlushedCounter.numbers ++ b.gauges.map GaugeReading.value ++
    b.timers.flatMap fun t => t.summary.numbers

def observed (b : Batch α) : List α :=
  b.gauges.map GaugeReading.value ++ b.timers.flatMap fun t => t.summary.observed

-- The counts of a batch: members of sets, and samples, also those inside a cut.
def counts (b : Batch α) : List Nat :=
  b.sets.map SetReading.cardinality ++
    b.timers.flatMap fun t => t.summary.count :: t.summary.percentiles.map Percentile.count

def Countable (b : Batch α) : Prop :=
  ∀ n ∈ b.counts, n < 2 ^ 64

instance (b : Batch α) : Decidable b.Countable :=
  inferInstanceAs (Decidable (∀ n ∈ b.counts, n < 2 ^ 64))

theorem Countable.timer {b : Batch α} (h : b.Countable) {t : FlushedTimer α} (ht : t ∈ b.timers) :
    t.summary.count < 2 ^ 64 :=
  h _ (List.mem_append_right _ (List.mem_flatMap.mpr ⟨t, ht, List.mem_cons_self⟩))

end Batch

variable [Number α]

structure Adds (term total : α → Prop) : Prop where
  empty : total Number.emptySum
  add : ∀ {s x}, total s → term x → total (s + x)

theorem Adds.sum {term total : α → Prop} (h : Adds term total) {xs : List α}
    (hxs : ∀ x ∈ xs, term x) : total (Number.sum xs) := by
  have hfold : ∀ s, total s → total (xs.foldl (· + ·) s) := by
    induction xs with
    | nil => exact fun _ hs => hs
    | cons x rest ih =>
      obtain ⟨hx, hrest⟩ := List.forall_mem_cons.mp hxs
      exact fun s hs => ih hrest _ (h.add hs hx)
  exact hfold _ h.empty

variable (α) in
structure Calculus extends Regime α where
  total : α → Prop
  square : α → Prop
  squares : α → Prop
  mean : α → Prop
  deviation : α → Prop
  deviations : α → Prop
  figure : α → Prop
  totals : Adds value total
  square_of : ∀ {x}, value x → square (x * x)
  totals_squares : Adds square squares
  mean_of : ∀ {s n}, total s → 0 < n → n < 2 ^ 64 → mean (s / Number.ofNat n)
  deviation_of : ∀ {x m}, value x → mean m → deviation ((x - m) * (x - m))
  totals_deviations : Adds deviation deviations
  figure_value : ∀ {x}, value x → figure x
  figure_total : ∀ {x}, total x → figure x
  figure_squares : ∀ {x}, squares x → figure x
  figure_mean : ∀ {x}, mean x → figure x
  figure_median : ∀ {x y}, value x → value y → figure ((x + y) / Number.ofNat 2)
  figure_deviation : ∀ {s n}, deviations s → 0 < n → n < 2 ^ 64 →
    figure (Number.sqrt (s / Number.ofNat n))
  figure_increments : ∀ {x}, increments.whole x → figure x
  figure_weights : ∀ {x}, weights.whole x → figure x

namespace Calculus

variable (K : Calculus α)

theorem mem_cut {sorted : List α} {threshold x : α}
    (h : x ∈ Percentile.cut sorted threshold) : x ∈ sorted := by
  unfold Percentile.cut at h
  split at h
  · exact List.mem_of_mem_take h
  · exact List.mem_of_mem_drop h

theorem rank_le (threshold : α) (count : Nat) : Percentile.rank threshold count ≤ max count 1 := by
  unfold Percentile.rank
  split <;> omega

theorem rank_pos {sorted : List α} {threshold x : α} (h : x ∈ Percentile.cut sorted threshold) :
    0 < Percentile.rank threshold sorted.length := by
  rw [Nat.pos_iff_ne_zero]
  intro hzero
  simp [Percentile.cut, hzero] at h

structure Cuts (thresholds : List α) (p : Percentile α) : Prop where
  threshold : p.threshold ∈ thresholds
  bound : K.value p.bound
  mean : K.figure p.mean
  sum : K.figure p.sum
  sumSquares : K.figure p.sumSquares

theorem cuts_compute {sorted thresholds : List α} (hsorted : ∀ x ∈ sorted, K.value x)
    (hlength : sorted.length < 2 ^ 64) {threshold : α} (hthreshold : threshold ∈ thresholds)
    {p : Percentile α} (hp : Percentile.compute sorted threshold = some p) :
    K.Cuts thresholds p := by
  obtain ⟨bound, hbound, rfl⟩ := Option.map_eq_some_iff.mp hp
  have hmem : bound ∈ Percentile.cut sorted threshold := by
    split at hbound
    · exact List.mem_of_getLast? hbound
    · exact List.mem_of_head? hbound
  have hinside : ∀ x ∈ Percentile.cut sorted threshold, K.value x :=
    fun x hx => hsorted x (mem_cut hx)
  have hsum := K.totals.sum hinside
  have hrank := rank_le threshold sorted.length
  exact
    { threshold := hthreshold
      bound := hinside bound hmem
      mean := K.figure_mean (K.mean_of hsum (rank_pos hmem) (by omega))
      sum := K.figure_total hsum
      sumSquares := K.figure_squares <| K.totals_squares.sum fun y hy => by
        obtain ⟨x, hx, rfl⟩ := List.mem_map.mp hy
        exact K.square_of (hinside x hx) }

-- The summary of samples, as far as it is computed of the samples.
structure Summarizes (thresholds : List α) (s : Summary α) : Prop where
  sum : K.figure s.sum
  sumSquares : K.figure s.sumSquares
  least : K.value s.least
  greatest : K.value s.greatest
  mean : K.figure s.mean
  median : K.figure s.median
  deviation : K.figure s.deviation
  percentiles : ∀ p ∈ s.percentiles, K.Cuts thresholds p

theorem summarizes_ofSorted {first : α} {rest : List α} (h : ∀ x ∈ first :: rest, K.value x)
    (hlength : (first :: rest).length < 2 ^ 64) (sampledCount : α) (thresholds : List α)
    (interval : Nat) :
    K.Summarizes thresholds (.ofSorted first rest sampledCount thresholds interval) := by
  have hpos : 0 < (first :: rest).length := Nat.succ_pos _
  have hsum := K.totals.sum h
  have hmean := K.mean_of hsum hpos hlength
  have hat : ∀ i, K.value ((first :: rest).getD i first) := by
    intro i
    rw [List.getD_eq_getElem?_getD]
    cases hi : (first :: rest)[i]? with
    | none => exact h first List.mem_cons_self
    | some x => exact h x (List.mem_of_getElem? hi)
  exact
    { sum := K.figure_total hsum
      sumSquares := K.figure_squares <| K.totals_squares.sum fun y hy => by
        obtain ⟨x, hx, rfl⟩ := List.mem_map.mp hy
        exact K.square_of (h x hx)
      least := h first List.mem_cons_self
      greatest := h _ (List.getLast_mem _)
      mean := K.figure_mean hmean
      median := by
        simp only [Summary.ofSorted, Summary.medianOf]
        split
        · exact K.figure_median (hat _) (hat _)
        · exact K.figure_value (hat _)
      deviation := K.figure_deviation (K.totals_deviations.sum fun y hy => by
        obtain ⟨x, hx, rfl⟩ := List.mem_map.mp hy
        exact K.deviation_of (h x hx) hmean) hpos hlength
      percentiles := fun p hp => by
        obtain ⟨threshold, hthreshold, hcompute⟩ := List.mem_filterMap.mp hp
        exact K.cuts_compute h hlength hthreshold hcompute }

variable {K} {thresholds : List α} {interval : Nat}

theorem numbers_of_summarizes {s : Summary α} (h : K.Summarizes thresholds s)
    (hthresholds : ∀ x ∈ thresholds, K.figure x) (hcount : K.figure s.sampledCount)
    (hrate : K.figure s.perSecond) : ∀ x ∈ s.numbers, K.figure x := by
  refine List.forall_mem_append.mpr ⟨?_, List.forall_mem_flatMap.mpr fun p hp => ?_⟩
  · simp only [List.forall_mem_cons]
    exact ⟨hcount, hrate, h.sum, h.sumSquares, K.figure_value h.least, K.figure_value h.greatest,
      h.mean, h.median, h.deviation, List.forall_mem_nil _⟩
  · have hcut := h.percentiles p hp
    simp only [Percentile.numbers, List.forall_mem_cons]
    exact ⟨hthresholds _ hcut.threshold, K.figure_value hcut.bound, hcut.mean, hcut.sum,
      hcut.sumSquares, List.forall_mem_nil _⟩

theorem observed_of_summarizes {s : Summary α} (h : K.Summarizes thresholds s) :
    ∀ x ∈ s.observed, K.value x ∨ x ∈ thresholds := by
  simp only [Summary.observed, List.forall_mem_cons]
  refine ⟨.inl h.least, .inl h.greatest, List.forall_mem_flatMap.mpr fun p hp => ?_⟩
  have hcut := h.percentiles p hp
  simp only [List.forall_mem_cons]
  exact ⟨.inr hcut.threshold, .inl hcut.bound, List.forall_mem_nil _⟩

theorem timer_of_joined {snapshots : List (Snapshot α)} (h : ∀ s ∈ snapshots, K.Joined s)
    {timestamp : Nat} {t : FlushedTimer α}
    (ht : t ∈ (Batch.ofSnapshots snapshots thresholds interval timestamp).timers)
    (hcount : t.summary.count < 2 ^ 64) :
    K.Summarizes thresholds t.summary ∧ K.weights.whole t.summary.sampledCount ∧
      t.summary.perSecond = Number.perSecond t.summary.sampledCount interval := by
  obtain ⟨s, hs, ht⟩ := List.mem_flatMap.mp ((Batch.sorted_perm _ _).mem_iff.mp ht)
  obtain ⟨reading, hreading, ht⟩ := List.mem_filterMap.mp ht
  obtain ⟨summary, hsummary, rfl⟩ := Option.map_eq_some_iff.mp ht
  obtain ⟨hsamples, hweight⟩ := (h s hs).timers reading hreading
  unfold Summary.compute at hsummary
  split at hsummary
  · cases hsummary
  · rename_i first rest hsorted
    cases hsummary
    have hvalues : ∀ x ∈ first :: rest, K.value x := fun x hx =>
      hsamples x (List.mem_mergeSort.mp (hsorted ▸ hx))
    exact ⟨K.summarizes_ofSorted hvalues hcount _ _ _, hweight, rfl⟩

theorem numbers_of_makes (hrate : ∀ x, K.increments.whole x ∨ K.weights.whole x →
      K.figure (Number.perSecond x interval))
    (hthresholds : ∀ x ∈ thresholds, K.figure x) {b : Batch α}
    (hb : K.Makes thresholds interval b) (hcount : b.Countable) :
    (∀ x ∈ b.numbers, K.figure x) ∧ ∀ x ∈ b.observed, K.value x ∨ x ∈ thresholds := by
  obtain ⟨snapshots, timestamp, hsnapshots, rfl⟩ := hb.made
  have hgauges : ∀ x ∈ (Batch.ofSnapshots snapshots thresholds interval timestamp).gauges.map
      GaugeReading.value, K.value x := by
    intro x hx
    obtain ⟨g, hg, rfl⟩ := List.mem_map.mp hx
    obtain ⟨s, hs, hg⟩ := List.mem_flatMap.mp ((Batch.sorted_perm _ _).mem_iff.mp hg)
    exact (hsnapshots s hs).gauges g hg
  constructor
  · refine List.forall_mem_append.mpr ⟨List.forall_mem_append.mpr ⟨?_, fun x hx =>
      K.figure_value (hgauges x hx)⟩, List.forall_mem_flatMap.mpr fun t ht => ?_⟩
    · refine List.forall_mem_flatMap.mpr fun c hc => ?_
      obtain ⟨s, hs, hc⟩ := List.mem_flatMap.mp ((Batch.sorted_perm _ _).mem_iff.mp hc)
      obtain ⟨reading, hreading, rfl⟩ := List.mem_map.mp hc
      obtain ⟨hdelta, htotal⟩ := (hsnapshots s hs).counters reading hreading
      simp only [FlushedCounter.numbers, Batch.flushCounter, List.forall_mem_cons]
      exact ⟨K.figure_increments hdelta, hrate _ (.inl hdelta), K.figure_increments htotal,
        List.forall_mem_nil _⟩
    · obtain ⟨hsummary, hweight, hperSecond⟩ :=
        timer_of_joined hsnapshots ht (hcount.timer ht)
      exact numbers_of_summarizes hsummary hthresholds (K.figure_weights hweight)
        (hperSecond ▸ hrate _ (.inr hweight))
  · refine List.forall_mem_append.mpr ⟨fun x hx => .inl (hgauges x hx),
      List.forall_mem_flatMap.mpr fun t ht => ?_⟩
    exact observed_of_summarizes (timer_of_joined hsnapshots ht (hcount.timer ht)).1

end Calculus

end StatsDaemon
