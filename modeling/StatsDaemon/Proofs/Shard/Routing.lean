import StatsDaemon.Proofs.Batch.Sorted
import StatsDaemon.Proofs.Key
import StatsDaemon.Proofs.Shard.Operation

namespace StatsDaemon

variable {α : Type} [Number α]

structure Flushed (α : Type) where
  batch : Batch α
  expired : Nat

inductive Shard.PoolOperation (α : Type) where
  | merge (m : Metric α) (now : Nat)
  | flush (now : Nat) (thresholds : List α) (interval timestamp : Nat)

namespace Shard

def flushes (s : Shard α) : List (Shard.PoolOperation α) → List (Flushed α)
  | [] => []
  | .merge m now :: rest => flushes (s.perform (.merge m now)).1 rest
  | .flush now thresholds interval timestamp :: rest =>
    let (s, snapshot) := s.snapshot now
    ⟨.ofSnapshots [snapshot] thresholds interval timestamp, snapshot.expired⟩ :: flushes s rest

-- All that a pool of shards flushes in a run, with every metric merged by the shard that owns it.
def poolFlushes (pool : List (Shard α)) : List (Shard.PoolOperation α) → List (Flushed α)
  | [] => []
  | .merge m now :: rest =>
    poolFlushes (pool.modify (m.key.shard pool.length) fun s => (s.perform (.merge m now)).1) rest
  | .flush now thresholds interval timestamp :: rest =>
    let answers := pool.map (·.snapshot now)
    let snapshots := answers.map Prod.snd
    ⟨.ofSnapshots snapshots thresholds interval timestamp,
      (snapshots.map Snapshot.expired).sum⟩ :: poolFlushes (answers.map Prod.fst) rest

def part (s : Shard α) (n i : Nat) : Shard α :=
  { s with entries := s.entries.filter fun e => e.key.shard n == i }

def parts (s : Shard α) (n : Nat) : List (Shard α) :=
  (List.range n).map (s.part n)

omit [Number α] in
theorem parts_ofSettings (c : Config.Aggregation) (n : Nat) :
    (ofSettings c : Shard α).parts n = List.replicate n (ofSettings c) := by
  rw [parts, List.eq_replicate_iff]
  refine ⟨by simp, fun s hs => ?_⟩
  obtain ⟨i, -, rfl⟩ := List.mem_map.mp hs
  rfl

-- The shard that owns the identity merges the metric as one shard would.
theorem mergeEntries_filter (m : KeyedMetric α) (now : Nat) (owned : Key → Bool)
    (entries merged : List (Entry α)) (h : mergeEntries m now entries = .ok merged)
    (hm : owned m.key = true) :
    mergeEntries m now (entries.filter fun e => owned e.key) =
      .ok (merged.filter fun e => owned e.key) := by
  induction entries generalizing merged with
  | nil =>
    simp only [mergeEntries, Except.ok.injEq] at h
    simp [mergeEntries, ← h, hm]
  | cons e rest ih =>
    rcases mergeEntries_cons_ok m now e rest merged h with ⟨hk, a, ha, rfl⟩ | ⟨hk, others, hr, rfl⟩
    · have he : owned e.key = true := hk ▸ hm
      simp only [List.filter_cons, he, if_true]
      rw [mergeEntries_cons, if_pos hk, ha]
      rfl
    · simp only [List.filter_cons]
      cases he : owned e.key with
      | false => exact ih others hr
      | true =>
        simp only [if_true]
        rw [mergeEntries_cons, if_neg hk, ih others hr]
        rfl

theorem mergeEntries_filter_of_not (m : KeyedMetric α) (now : Nat) (owned : Key → Bool)
    (entries merged : List (Entry α)) (h : mergeEntries m now entries = .ok merged)
    (hm : owned m.key = false) :
    (merged.filter fun e => owned e.key) = entries.filter fun e => owned e.key := by
  rcases mergeEntries_cases m now entries merged h with
    ⟨before, e, after, a, rfl, -, hk, -, rfl⟩ | ⟨-, rfl⟩
  · have he : owned e.key = false := hk ▸ hm
    simp [List.filter_append, he]
  · simp [List.filter_append, hm]

theorem parts_merge (s : Shard α) (n : Nat) (m : Metric α) (now : Nat) (hs : Sound s.entries) :
    (s.parts n).modify (m.key.shard n) (fun p => (p.perform (.merge m now)).1) =
      (s.perform (.merge m now)).1.parts n := by
  obtain ⟨entries, hentries, hperform, -⟩ := s.perform_merge m now hs
  rw [hperform]
  refine List.ext_getElem (by simp [parts]) fun i hi _ => ?_
  rw [List.getElem_modify]
  simp only [parts, List.getElem_map, List.getElem_range]
  by_cases howner : m.key.shard n = i
  · have hpart := mergeEntries_filter m.keyed now (fun k => k.shard n == i) s.entries entries
      hentries (by simpa [Metric.keyed] using howner)
    have hmerged :
        (s.part n i).merge m.keyed now = .ok (({ s with entries } : Shard α).part n i) := by
      rw [merge, part]
      dsimp only
      rw [hpart]
      rfl
    rw [if_pos howner]
    simp only [perform, hmerged]
  · have hpart := mergeEntries_filter_of_not m.keyed now (fun k => k.shard n == i) s.entries
      entries hentries (by simpa [Metric.keyed] using howner)
    rw [if_neg howner, part, part]
    dsimp only
    rw [hpart]

omit [Number α] in
-- Every entry is in one part, also after those that are not wanted were left out.
theorem parts_entries_perm (s : Shard α) (n : Nat) (wanted : Entry α → Bool) (hn : 0 < n) :
    ((List.range n).flatMap fun i => (s.part n i).entries.filter wanted).Perm
      (s.entries.filter wanted) := by
  have hperm := (Key.shares_perm Entry.key n s.entries hn).filter wanted
  rwa [List.filter_flatMap] at hperm

omit [Number α] in
theorem part_readings_perm {β : Type} (s : Shard α) (n now : Nat) (read : Entry α → Option β)
    (hn : 0 < n) :
    ((List.range n).flatMap fun i =>
        ((s.part n i).entries.filter fun e => !s.isIdle now e).filterMap read).Perm
      ((s.entries.filter fun e => !s.isIdle now e).filterMap read) := by
  rw [← List.filterMap_flatMap]
  exact (parts_entries_perm s n _ hn).filterMap read

theorem snapshot_expired (s : Shard α) (now : Nat) :
    (s.snapshot now).2.expired = (s.entries.filter (s.isIdle now)).length := by
  have hsplit := List.length_eq_length_filter_add (l := s.entries) (s.isIdle now)
  simp only [snapshot]
  omega

theorem snapshot_divided (s : Shard α) (n now : Nat) (hn : 0 < n) (hevents : s.events = []) :
    (s.snapshot now).2.Divided ((s.parts n).map fun p => (p.snapshot now).2) := by
  constructor
  · simp only [parts, List.map_map, List.flatMap_map]
    exact part_readings_perm s n now _ hn
  · simp only [parts, List.map_map, List.flatMap_map]
    exact part_readings_perm s n now _ hn
  · simp only [parts, List.map_map, List.flatMap_map]
    exact part_readings_perm s n now _ hn
  · simp only [parts, List.map_map, List.flatMap_map]
    exact part_readings_perm s n now _ hn
  · simp [parts, List.flatMap_map, snapshot, part, hevents]
  · have hlength := (parts_entries_perm s n (s.isIdle now) hn).length_eq
    rw [List.length_flatMap] at hlength
    simp only [parts, List.map_map]
    rw [snapshot_expired, ← hlength]
    congr 1
    refine List.map_congr_left fun i _ => ?_
    exact snapshot_expired (s.part n i) now

theorem snapshot_parts (s : Shard α) (n now : Nat) :
    (s.parts n).map (fun p => (p.snapshot now).1) = (s.snapshot now).1.parts n := by
  simp only [parts, List.map_map]
  refine List.map_congr_left fun i _ => ?_
  simp only [Function.comp_apply, snapshot, part, isIdle, List.filter_map, List.filter_filter,
    Function.comp_def, reset_key, Shard.mk.injEq, and_true]
  congr 1
  refine List.filter_congr fun e _ => ?_
  cases e.key.shard n == i <;> simp

theorem flushes_parts (s : Shard α) (n : Nat) (run : List (Shard.PoolOperation α)) (hn : 0 < n)
    (hs : Sound s.entries) (hevents : s.events = []) :
    poolFlushes (s.parts n) run = s.flushes run := by
  induction run generalizing s with
  | nil => rfl
  | cons o rest ih =>
    cases o with
    | merge m now =>
      have hlength : (s.parts n).length = n := by simp [parts]
      obtain ⟨entries, -, hperform, hsound⟩ := s.perform_merge m now hs
      rw [poolFlushes, flushes, hlength, parts_merge s n m now hs, hperform]
      exact ih _ hsound hevents
    | flush now thresholds interval timestamp =>
      have hdivided := snapshot_divided s n now hn hevents
      have hbatch := hdivided.batch (snapshot_once s now hs) thresholds interval timestamp
      have hrest := ih (s.snapshot now).1 (snapshot_sound s now hs) rfl
      simp only [poolFlushes, flushes, List.map_map, Function.comp_def]
      rw [hbatch, snapshot_parts, hrest]
      have hexpired := hdivided.expired
      simp only [List.map_map, Function.comp_def] at hexpired
      rw [hexpired]

end Shard

theorem pool_flushes_as_one_shard (c : Config.Aggregation) (n : Nat) (hn : 0 < n)
    (run : List (Shard.PoolOperation α)) :
    Shard.poolFlushes (List.replicate n (.ofSettings c)) run =
      (Shard.ofSettings c).flushes run := by
  rw [← Shard.parts_ofSettings]
  exact Shard.flushes_parts _ n run hn Shard.sound_nil rfl

theorem two_shards_flush_as_one :
    0 < 2 ∧
    Shard.poolFlushes (List.replicate 2 (.ofSettings { workers := 2 }))
        [.merge ⟨"a", .counter 2, 1, .empty, none⟩ 0, .merge ⟨"b", .gauge 3, 1, .empty, none⟩ 5,
          .merge ⟨"a", .counter 4, 1, .empty, none⟩ 7, .flush 10 [] 10 0] =
      (Shard.ofSettings { workers := 2 } : Shard Binary64).flushes
        [.merge ⟨"a", .counter 2, 1, .empty, none⟩ 0, .merge ⟨"b", .gauge 3, 1, .empty, none⟩ 5,
          .merge ⟨"a", .counter 4, 1, .empty, none⟩ 7, .flush 10 [] 10 0] :=
  ⟨by decide, pool_flushes_as_one_shard { workers := 2 } 2 (by decide) _⟩

end StatsDaemon
