import Mathlib
import StatsDaemon.Pipeline.Dispatcher
import StatsDaemon.Proofs.Batch.Sorted
import StatsDaemon.Proofs.Exact
import StatsDaemon.Proofs.Shard.Scan
import StatsDaemon.Proofs.Snapshot.Merge

namespace StatsDaemon

variable {α : Type} [ExactNumber α] {β : Type}

def amountIn (series : β → Series) (figure : β → α) (items : List β) (x : Series) : α :=
  ((items.filter fun y => series y = x).map figure).sum

def KeyedMetric.amount (m : KeyedMetric α) (x : Series) : α :=
  match m.value with
  | .counter v => if m.key = x.key .counter then v / m.sampleRate else 0
  | _ => 0

def Pipeline.Share.amount (s : Pipeline.Share α) (x : Series) : α :=
  (s.metrics.map (·.amount x)).sum

def Entry.amount (e : Entry α) (x : Series) : α :=
  match e.aggregate with
  | .counter v _ => if e.key = x.key .counter then v else 0
  | _ => 0

def Shard.amount (s : Shard α) (x : Series) : α :=
  (s.entries.map (·.amount x)).sum

def Snapshot.amount (s : Snapshot α) (x : Series) : α :=
  amountIn CounterReading.series CounterReading.delta s.counters x

def Batch.amount (b : Batch α) (x : Series) : α :=
  amountIn FlushedCounter.series FlushedCounter.delta b.counters x

theorem amountIn_append (series : β → Series) (figure : β → α) (items more : List β)
    (x : Series) :
    amountIn series figure (items ++ more) x =
      amountIn series figure items x + amountIn series figure more x := by
  simp [amountIn]

theorem amountIn_cons (series : β → Series) (figure : β → α) (item : β) (items : List β)
    (x : Series) :
    amountIn series figure (item :: items) x =
      (if series item = x then figure item else 0) + amountIn series figure items x := by
  by_cases hx : series item = x <;> simp [amountIn, hx]

theorem amountIn_perm (series : β → Series) (figure : β → α) (items others : List β) (x : Series)
    (h : items.Perm others) :
    amountIn series figure items x = amountIn series figure others x :=
  ((h.filter _).map _).sum_eq

theorem sum_filter_of_zero (wanted : β → Bool) (figure : β → α) (items : List β)
    (h : ∀ y ∈ items, wanted y = false → figure y = 0) :
    ((items.filter wanted).map figure).sum = (items.map figure).sum := by
  induction items with
  | nil => rfl
  | cons y rest ih =>
    have hrest := ih fun z hz => h z (List.mem_cons_of_mem _ hz)
    cases hy : wanted y with
    | true => simp [hy, hrest]
    | false => simp [hy, hrest, h y List.mem_cons_self hy]

theorem Entry.amount_start (m : KeyedMetric α) (now : Nat) (x : Series) :
    (⟨m.key, .start m.value m.sampleRate, now⟩ : Entry α).amount x = m.amount x := by
  cases hv : m.value <;> simp [Entry.amount, KeyedMetric.amount, Aggregate.start, hv]

theorem Entry.amount_insert (e : Entry α) (m : KeyedMetric α) (a : Aggregate α) (now : Nat)
    (x : Series) (hk : e.key = m.key) (ha : e.aggregate.insert m.value m.sampleRate = .ok a) :
    ({ e with aggregate := a, lastSeen := now } : Entry α).amount x =
      e.amount x + m.amount x := by
  cases he : e.aggregate <;> cases hv : m.value <;>
    simp only [he, hv, Aggregate.insert, reduceCtorEq, Except.ok.injEq] at ha <;> subst ha
  case counter.counter =>
    simp only [Entry.amount, KeyedMetric.amount, he, hv, hk]
    split <;> simp
  all_goals simp [Entry.amount, KeyedMetric.amount, he, hv]

theorem Entry.amount_reset (e : Entry α) (x : Series) : e.reset.amount x = 0 := by
  unfold Entry.reset
  split
  · simp [Entry.amount, ExactNumber.zero_eq]
  · rename_i ha
    simp [Entry.amount, ha]
  · simp [Entry.amount]
  · rename_i ha
    split <;> simp [Entry.amount, ha]

theorem Entry.amount_reading (e : Entry α) (x : Series) (hk : e.aggregate.kind = e.key.kind) :
    amountIn CounterReading.series CounterReading.delta e.counterReading?.toList x =
      e.amount x := by
  cases ha : e.aggregate with
  | counter v total =>
    have hkind : e.key.kind = .counter := by rw [← hk, ha]; rfl
    have hsame : e.key.series = x ↔ e.key = x.key .counter := by
      rw [Series.key_eq_iff]
      exact ⟨fun h => ⟨hkind, h⟩, And.right⟩
    have hread : e.counterReading? = some ⟨e.key.series, v, total + v⟩ := by
      simp [Entry.counterReading?, ha]
    rw [hread, Option.toList_some, amountIn_cons]
    simp [amountIn, Entry.amount, ha, hsame]
  | _ => simp [Entry.counterReading?, Entry.amount, ha, amountIn]

theorem amount_readings (entries : List (Entry α)) (x : Series)
    (hk : ∀ e ∈ entries, e.aggregate.kind = e.key.kind) :
    amountIn CounterReading.series CounterReading.delta
      (entries.filterMap Entry.counterReading?) x = (entries.map (·.amount x)).sum := by
  induction entries with
  | nil => rfl
  | cons e rest ih =>
    have hrest := ih fun y hy => hk y (List.mem_cons_of_mem _ hy)
    have hsplit : (e :: rest).filterMap Entry.counterReading? =
        e.counterReading?.toList ++ rest.filterMap Entry.counterReading? := by
      cases h : e.counterReading? <;> simp [h]
    rw [hsplit, amountIn_append, e.amount_reading x (hk e List.mem_cons_self), hrest,
      List.map_cons, List.sum_cons]

namespace Shard

theorem mergeEntries_amount (m : KeyedMetric α) (now : Nat) (entries merged : List (Entry α))
    (x : Series) (h : mergeEntries m now entries = .ok merged) :
    (merged.map (·.amount x)).sum = (entries.map (·.amount x)).sum + m.amount x := by
  rcases mergeEntries_cases m now entries merged h with
    ⟨before, e, after, a, rfl, -, hk, ha, rfl⟩ | ⟨-, rfl⟩
  · simp only [List.map_append, List.map_cons, List.sum_append, List.sum_cons,
      e.amount_insert m a now x hk ha]
    abel
  · simp only [List.map_append, List.map_cons, List.map_nil, List.sum_append, List.sum_cons,
      List.sum_nil, Entry.amount_start, add_zero]

-- A scan takes nothing away if idle entries have nothing to report.
theorem Scanned.amount {s scanned : Shard α} {now : Nat} {gone : List (Entry α)}
    (h : Scanned s now scanned gone) (x : Series)
    (hidle : ∀ e ∈ s.entries, s.isIdle now e = true → e.amount x = 0) :
    scanned.amount x = s.amount x := by
  have hgone : (gone.map (·.amount x)).sum = 0 := by
    refine List.sum_eq_zero fun y hy => ?_
    obtain ⟨e, he, rfl⟩ := List.mem_map.mp hy
    exact hidle e (h.entries.subset (List.mem_append_left _ he)) (h.idle e he)
  have hsum := (h.entries.map (·.amount x)).sum_eq
  rw [List.map_append, List.sum_append, hgone, zero_add] at hsum
  exact hsum

theorem snapshot_amount (s : Shard α) (now : Nat) (x : Series)
    (hk : ∀ e ∈ s.entries, e.aggregate.kind = e.key.kind)
    (hidle : ∀ e ∈ s.entries, s.isIdle now e = true → e.amount x = 0) :
    (s.snapshot now).2.amount x = s.amount x := by
  have hlive := amount_readings (s.entries.filter fun e => !s.isIdle now e) x
    fun e he => hk e (List.mem_filter.mp he).1
  refine hlive.trans (sum_filter_of_zero _ _ _ fun e he hgone => hidle e he ?_)
  simpa using hgone

theorem amount_after_snapshot (s : Shard α) (now : Nat) (x : Series) :
    (s.snapshot now).1.amount x = 0 := by
  refine List.sum_eq_zero fun y hy => ?_
  simp only [snapshot, List.map_map, List.mem_map] at hy
  obtain ⟨e, -, rfl⟩ := hy
  exact e.amount_reset x

end Shard

theorem foldReading_amount (items : List (CounterReading α)) (item : CounterReading α)
    (x : Series) :
    amountIn CounterReading.series CounterReading.delta
      (foldReading CounterReading.series (fun c l =>
        { c with delta := c.delta + l.delta, total := l.total }) items item) x =
    amountIn CounterReading.series CounterReading.delta items x +
      (if item.series = x then item.delta else 0) := by
  rcases foldReading_cases CounterReading.series (fun c l =>
    { c with delta := c.delta + l.delta, total := l.total }) items item with
    ⟨-, heq⟩ | ⟨before, y, after, rfl, hy, heq⟩
  · rw [heq, amountIn_append, amountIn_cons]
    simp [amountIn]
  · rw [heq, amountIn_append, amountIn_cons, amountIn_append, amountIn_cons]
    dsimp only
    rw [hy]
    split <;> abel

theorem Snapshot.amount_merge (s later : Snapshot α) (x : Series) :
    (s.merge later).amount x = s.amount x + later.amount x := by
  simp only [Snapshot.amount, Snapshot.merge]
  generalize s.counters = items
  induction later.counters generalizing items with
  | nil => simp [amountIn]
  | cons item rest ih =>
    rw [List.foldl_cons, ih, foldReading_amount, amountIn_cons]
    abel

theorem Batch.amount_ofSnapshots (snapshots : List (Snapshot α)) (thresholds : List α)
    (interval timestamp : Nat) (x : Series) :
    (ofSnapshots snapshots thresholds interval timestamp).amount x =
      (snapshots.map (·.amount x)).sum := by
  have hcounters (items : List (CounterReading α)) :
      amountIn FlushedCounter.series FlushedCounter.delta
        (items.map (flushCounter interval)) x =
      amountIn CounterReading.series CounterReading.delta items x := by
    simp only [amountIn, List.filter_map, List.map_map]
    rfl
  rw [Batch.amount, ofSnapshots]
  dsimp only
  rw [amountIn_perm _ _ _ _ x (sorted_perm FlushedCounter.series _)]
  induction snapshots with
  | nil => rfl
  | cons s rest ih =>
    rw [List.flatMap_cons, amountIn_append, hcounters, ih, List.map_cons, List.sum_cons]
    rfl

end StatsDaemon
