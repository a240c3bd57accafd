import StatsDaemon.Binary64
import StatsDaemon.Proofs.Shard.Cadence

namespace StatsDaemon

variable {α : Type} [Number α]

namespace Aggregate

-- Takes a value in; the aggregate afterwards, also where it failed.
def take (a : Aggregate α) (value : Value α) (rate : α) : Aggregate α × Option KindMismatch :=
  match a, value with
  | .counter sum total, .counter x => (.counter (sum + x / rate) total, none)
  | .gauge _, .gauge x => (.gauge x, none)
  | .set members, .set member => (.set (members.insert member), none)
  | .timer samples count, .timer x =>
    (.timer (samples ++ [x]) (count + Number.one / rate), none)
  | a, value => (a, some ⟨a.kind, value.kind⟩)

theorem take_eq (a : Aggregate α) (value : Value α) (rate : α) :
    a.take value rate =
      match a.insert value rate with
      | .ok b => (b, none)
      | .error failure => (a, some failure) := by
  cases a <;> cases value <;> rfl

theorem insert_of_kind_ne (a : Aggregate α) (value : Value α) (rate : α)
    (h : a.kind ≠ value.kind) : a.insert value rate = .error ⟨a.kind, value.kind⟩ := by
  cases a <;> cases value <;> first | rfl | exact absurd rfl h

end Aggregate

def Entry.take (e : Entry α) (value : Value α) (rate : α) (now : Nat) :
    Entry α × Option KindMismatch :=
  match e.aggregate.take value rate with
  | (aggregate, none) => ({ e with aggregate, lastSeen := now }, none)
  | (aggregate, some failure) => ({ e with aggregate }, some failure)

theorem Entry.take_eq (e : Entry α) (value : Value α) (rate : α) (now : Nat) :
    e.take value rate now =
      match e.aggregate.insert value rate with
      | .ok aggregate => ({ e with aggregate, lastSeen := now }, none)
      | .error failure => (e, some failure) := by
  rw [take, Aggregate.take_eq]
  cases e.aggregate.insert value rate <;> rfl

namespace Shard

def takeEntries (m : KeyedMetric α) (now : Nat) :
    List (Entry α) → List (Entry α) × Option KindMismatch
  | [] => ([⟨m.key, .start m.value m.sampleRate, now⟩], none)
  | e :: rest =>
    if e.key.same m.key then
      let (e, failure) := e.take m.value m.sampleRate now
      (e :: rest, failure)
    else
      let (rest, failure) := takeEntries m now rest
      (e :: rest, failure)

def mergeInPlace (s : Shard α) (m : KeyedMetric α) (now : Nat) : Shard α × Option KindMismatch :=
  let (entries, failure) := takeEntries m now s.entries
  ({ s with entries }, failure)

theorem takeEntries_eq (m : KeyedMetric α) (now : Nat) (entries : List (Entry α)) :
    takeEntries m now entries =
      match mergeEntries m now entries with
      | .ok merged => (merged, none)
      | .error failure => (entries, some failure) := by
  induction entries with
  | nil => rfl
  | cons e rest ih =>
    rw [takeEntries, mergeEntries]
    split
    · rw [Entry.take_eq]
      cases e.aggregate.insert m.value m.sampleRate <;> rfl
    · rw [ih]
      cases mergeEntries m now rest <;> rfl

-- Merging in place does what merging a copy does, and a failure leaves everything as it was.
theorem mergeInPlace_eq (s : Shard α) (m : KeyedMetric α) (now : Nat) :
    s.mergeInPlace m now =
      match s.merge m now with
      | .ok t => (t, none)
      | .error failure => (s, some failure) := by
  rw [mergeInPlace, merge, takeEntries_eq]
  cases mergeEntries m now s.entries <;> rfl

theorem mergeInPlace_of_ok {s : Shard α} {m : KeyedMetric α} {now : Nat} {entries : List (Entry α)}
    (h : mergeEntries m now s.entries = .ok entries) :
    s.mergeInPlace m now = ({ s with entries }, none) := by
  rw [mergeInPlace_eq, merge, h]
  rfl

def Refuses (s : Shard α) (m : KeyedMetric α) (now : Nat) (failure : KindMismatch) : Prop :=
  s.merge m now = .error failure ∧ s.mergeInPlace m now = (s, some failure)

theorem refuses_of_merge {s : Shard α} {m : KeyedMetric α} {now : Nat} {failure : KindMismatch}
    (h : s.merge m now = .error failure) : s.Refuses m now failure :=
  ⟨h, by rw [mergeInPlace_eq, h]⟩

theorem refuses_of_failure {s : Shard α} {m : KeyedMetric α} {now : Nat} {failure : KindMismatch}
    (h : (s.mergeInPlace m now).2 = some failure) : s.Refuses m now failure := by
  rw [mergeInPlace_eq] at h
  cases hmerge : s.merge m now with
  | ok t =>
    rw [hmerge] at h
    cases h
  | error reason =>
    rw [hmerge] at h
    cases h
    exact refuses_of_merge hmerge

theorem act_merge (s : Shard α) (m : KeyedMetric α) (now : Nat) :
    s.act now (.merge m) = (s.mergeInPlace m now).1 := by
  rw [act, mergeInPlace_eq]
  cases s.merge m now <;> rfl

theorem actAll_concat (s : Shard α) (run : List (Nat × Action α)) (now : Nat) (a : Action α) :
    s.actAll (run ++ [(now, a)]) = (s.actAll run).act now a := by
  rw [actAll, List.foldl_append]
  rfl

omit [Number α] in
def Action.metric? : Action α → Option (KeyedMetric α)
  | .merge m => some m
  | _ => none

omit [Number α] in
def metricsOf (run : List (Nat × Action α)) : List (KeyedMetric α) :=
  run.filterMap fun x => x.2.metric?

-- The metric began an entry that has stayed: there was none of its identity when it was merged, and
-- there has been one ever since.
def Founds (s : Shard α) (run : List (Nat × Action α)) (m : KeyedMetric α) : Prop :=
  ∃ before now after, run = before ++ (now, .merge m) :: after ∧
    (∀ e ∈ (s.actAll before).entries, e.key ≠ m.key) ∧
    ∀ part, part <+: after →
      ∃ e ∈ (s.actAll (before ++ (now, .merge m) :: part)).entries, e.key = m.key

theorem Founds.metric {s : Shard α} {run : List (Nat × Action α)} {m : KeyedMetric α}
    (h : s.Founds run m) : m ∈ metricsOf run := by
  obtain ⟨before, now, after, rfl, -⟩ := h
  simp [metricsOf, Action.metric?]

theorem Founds.concat {s : Shard α} {run : List (Nat × Action α)} {m : KeyedMetric α}
    (h : s.Founds run m) {last : Nat × Action α}
    (hstays : ∃ e ∈ (s.actAll (run ++ [last])).entries, e.key = m.key) :
    s.Founds (run ++ [last]) m := by
  obtain ⟨before, now, after, rfl, hvacant, hsince⟩ := h
  refine ⟨before, now, after ++ [last], by simp, hvacant, fun part hpart => ?_⟩
  rcases List.prefix_concat_iff.mp hpart with rfl | hpart
  · simpa using hstays
  · exact hsince part hpart

-- What was merged into an entry was of the kind that it had, so an entry keeps its kind; only a
-- metric without an entry makes a new one.
theorem mem_merge {s : Shard α} {m : KeyedMetric α} {now : Nat} {x : Entry α}
    (hx : x ∈ (s.mergeInPlace m now).1.entries) :
    (∃ e ∈ s.entries, e.key = x.key ∧ e.aggregate.kind = x.aggregate.kind) ∨
      x = ⟨m.key, .start m.value m.sampleRate, now⟩ ∧ ∀ e ∈ s.entries, e.key ≠ m.key := by
  rw [mergeInPlace_eq] at hx
  cases hmerge : s.merge m now with
  | error failure =>
    rw [hmerge] at hx
    exact .inl ⟨x, hx, rfl, rfl⟩
  | ok t =>
    rw [hmerge] at hx
    obtain ⟨entries, hentries, rfl⟩ := merge_eq_ok s t m now hmerge
    rcases mergeEntries_cases m now s.entries entries hentries with
      ⟨before, e, after, a, hs, -, -, ha, rfl⟩ | ⟨hvacant, rfl⟩
    · simp only [List.mem_append, List.mem_cons] at hx
      rcases hx with hx | rfl | hx
      · exact .inl ⟨x, by simp [hs, hx], rfl, rfl⟩
      · exact .inl ⟨e, by simp [hs], rfl, (Aggregate.kind_insert ha).symm⟩
      · exact .inl ⟨x, by simp [hs, hx], rfl, rfl⟩
    · rcases List.mem_append.mp hx with hx | hx
      · exact .inl ⟨x, hx, rfl, rfl⟩
      · exact .inr ⟨List.mem_singleton.mp hx, hvacant⟩

theorem mem_act {s : Shard α} {now : Nat} {a : Action α} {x : Entry α}
    (hx : x ∈ (s.act now a).entries) :
    (∃ e ∈ s.entries, e.key = x.key ∧ e.aggregate.kind = x.aggregate.kind) ∨
      ∃ m, a = .merge m ∧ x = ⟨m.key, .start m.value m.sampleRate, now⟩ ∧
        ∀ e ∈ s.entries, e.key ≠ m.key := by
  cases a with
  | merge m =>
    rw [act_merge] at hx
    exact (mem_merge hx).imp id fun h => ⟨m, rfl, h⟩
  | addEvent e =>
    have hsame : (s.addEvent e).1.entries = s.entries := by
      unfold addEvent
      split <;> rfl
    exact .inl ⟨x, hsame ▸ hx, rfl, rfl⟩
  | expire chunk =>
    obtain ⟨gone, hscanned, -⟩ := s.expireChunk_scanned now chunk
    exact .inl ⟨x, hscanned.entries.subset (List.mem_append_right _ hx), rfl, rfl⟩
  | snapshot =>
    obtain ⟨e, he, rfl⟩ := mem_snapshot s now x hx
    exact .inl ⟨e, he, (reset_key e).symm, (reset_kind e).symm⟩

theorem founded_of_mem {s : Shard α} (hs : s.entries = []) (run : List (Nat × Action α))
    {x : Entry α} (hx : x ∈ (s.actAll run).entries) :
    ∃ m, s.Founds run m ∧ m.key = x.key ∧ x.aggregate.kind = m.value.kind := by
  induction run using List.reverseRecOn generalizing x with
  | nil => exact absurd (hs ▸ hx) List.not_mem_nil
  | append_singleton run last ih =>
    obtain ⟨now, a⟩ := last
    have hact := hx
    rw [actAll_concat] at hact
    rcases mem_act hact with ⟨e, he, hkey, hkind⟩ | ⟨m, rfl, rfl, hvacant⟩
    · obtain ⟨m, hm, hmkey, hmkind⟩ := ih he
      have hsame : m.key = x.key := hmkey.trans hkey
      exact ⟨m, hm.concat ⟨x, hx, hsame.symm⟩, hsame, hkind.symm.trans hmkind⟩
    · refine ⟨m, ⟨run, now, [], rfl, hvacant, fun part hpart => ?_⟩, rfl, Aggregate.kind_start _ _⟩
      obtain rfl := List.prefix_nil.mp hpart
      exact ⟨_, hx, rfl⟩

theorem kinds_of_founded {s : Shard α} (hs : s.entries = []) (run : List (Nat × Action α))
    (h : ∀ m, s.Founds run m → m.Coherent) :
    ∀ x ∈ (s.actAll run).entries, x.aggregate.kind = x.key.kind := by
  intro x hx
  obtain ⟨m, hm, hkey, hkind⟩ := founded_of_mem hs run hx
  rw [hkind, ← hkey]
  exact (h m hm).symm

theorem mergeInPlace_ok {s : Shard α} {m : KeyedMetric α} (now : Nat) (hm : m.Coherent)
    (hs : ∀ e ∈ s.entries, e.aggregate.kind = e.key.kind) : (s.mergeInPlace m now).2 = none := by
  obtain ⟨merged, hmerged⟩ := mergeEntries_ok m now s.entries hm hs
  rw [mergeInPlace_of_ok hmerged]

-- A merge that fails changes nothing, whatever the metric. If every metric comes under its own
-- identity, each aggregate is of the kind of its identity, and no merge fails.
theorem failed_merges_harmless (c : Config.Aggregation) (run : List (Nat × Action α)) :
    let start : Shard α := ofSettings c
    (∀ m now, (start.actAll run).act now (.merge m) = ((start.actAll run).mergeInPlace m now).1) ∧
    (∀ m now failure, ((start.actAll run).mergeInPlace m now).2 = some failure →
      (start.actAll run).Refuses m now failure) ∧
    ((∀ m ∈ metricsOf run, ∃ metric : Metric α, metric.keyed = m) →
      (∀ e ∈ (start.actAll run).entries, e.aggregate.kind = e.key.kind) ∧
      ∀ before m now after, run = before ++ (now, .merge m) :: after →
        ((start.actAll before).mergeInPlace m now).2 = none) := by
  intro start
  have hkinds (run : List (Nat × Action α))
      (h : ∀ m ∈ metricsOf run, ∃ metric : Metric α, metric.keyed = m) :
      ∀ e ∈ (start.actAll run).entries, e.aggregate.kind = e.key.kind := by
    refine kinds_of_founded rfl run fun m hm => ?_
    obtain ⟨metric, rfl⟩ := h m hm.metric
    exact metric.keyed_coherent
  refine ⟨act_merge _, fun m now failure => refuses_of_failure, fun hown => ⟨hkinds run hown, ?_⟩⟩
  rintro before m now after rfl
  obtain ⟨metric, rfl⟩ := hown m (by simp [metricsOf, Action.metric?])
  refine mergeInPlace_ok now metric.keyed_coherent (hkinds before fun other hother => ?_)
  rw [metricsOf, List.filterMap_append] at hown
  exact hown other (List.mem_append_left _ hother)

theorem late_forgery_harmless :
    let gauge : Metric Binary64 := ⟨"x", .gauge 1, 1, .empty, none⟩
    let forged : KeyedMetric Binary64 := ⟨gauge.key, .counter 7, 1⟩
    let run : List (Nat × Action Binary64) :=
      [(0, .merge gauge.keyed), (0, .addEvent { title := "deploy", text := "" }), (10, .snapshot),
        (20, .expire 1), (30, .merge gauge.keyed)]
    let s := (ofSettings { workers := 1 } : Shard Binary64).actAll run
    ((s.mergeInPlace forged 40).2 = some ⟨.gauge, .counter⟩ ∧
      s.Refuses forged 40 ⟨.gauge, .counter⟩) ∧
      (∀ m ∈ metricsOf run, ∃ metric : Metric Binary64, metric.keyed = m) ∧
      s.entries.map (·.lastSeen) = [30] ∧ ∀ e ∈ s.entries, e.aggregate.kind = e.key.kind := by
  intro gauge forged run s
  obtain ⟨-, hharmless, hown⟩ := failed_merges_harmless { workers := 1 } run
  have hfails : (s.mergeInPlace forged 40).2 = some ⟨.gauge, .counter⟩ := by decide +kernel
  have hkeyed : ∀ m ∈ metricsOf run, ∃ metric : Metric Binary64, metric.keyed = m := by
    intro m hm
    have hm : m ∈ [gauge.keyed, gauge.keyed] := hm
    exact ⟨gauge, (List.mem_pair.mp hm).elim Eq.symm Eq.symm⟩
  exact ⟨⟨hfails, hharmless forged 40 _ hfails⟩, hkeyed, by decide +kernel, (hown hkeyed).1⟩

end Shard

end StatsDaemon
