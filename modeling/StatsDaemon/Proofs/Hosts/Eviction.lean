import StatsDaemon.Proofs.Hosts.Table

namespace StatsDaemon.Hosts

namespace Cache

inductive Operation where
  | apply (host : String) (tags : Tags)
  | insert (host : String) (tags : Option Tags) (expires : Nat)
  | evict (maxIdle : Nat)

def perform (c : Cache) (now : Nat) : Operation → Cache
  | .apply host tags => (c.apply host tags now).1
  | .insert host tags expires => c.insert host tags expires now
  | .evict maxIdle => (c.evict maxIdle now).1

-- Whether an operation is a use of a host: a read that finds it, or the making of its entry.
def isUse (c : Cache) (host : String) : Operation → Bool
  | .apply other _ => host = other && (c.find? host).isSome
  | .insert other _ _ => host = other && (c.find? host).isNone
  | .evict _ => false

-- The instant of the last use of a host in a run, or the one before the run.
def lastUse (host : String) : Cache → Option Nat → List (Nat × Operation) → Option Nat
  | _, last, [] => last
  | c, last, (now, o) :: rest =>
    lastUse host (c.perform now o) (if c.isUse host o then some now else last) rest

def performAll (c : Cache) (run : List (Nat × Operation)) : Cache :=
  run.foldl (fun c (now, o) => c.perform now o) c

def elapsed (c : Cache) (now : Nat) : Nat :=
  (now - c.epoch) / c.resolution

def isUnused (measure : Nat → Nat) (limit now : Nat) : Option Nat → Bool
  | some last => measure last + limit < measure now
  | none => false

-- An eviction forgets the hosts that are unused and no others, leaves the rest as it is, and tells
-- how many there were.
structure ForgetsUnused (c : Cache) (uses : String → Option Nat) (maxIdle now : Nat)
    (measure : Nat → Nat) (limit : Nat) : Prop where
  distinct : c.Distinct
  used : ∀ e ∈ c.entries, (uses e.host).isSome
  entries : (c.evict maxIdle now).1.entries =
    c.entries.filter fun e => !isUnused measure limit now (uses e.host)
  count : (c.evict maxIdle now).2 =
    c.entries.countP fun e => isUnused measure limit now (uses e.host)

structure Stamped (c : Cache) (uses : String → Option Nat) : Prop where
  distinct : c.Distinct
  stamp : ∀ host e, c.find? host = some e →
    ∃ last, uses host = some last ∧ e.lastUsed = c.sinceEpoch last

theorem clock_perform (c : Cache) (now : Nat) (o : Operation) :
    (c.perform now o).epoch = c.epoch ∧ (c.perform now o).resolution = c.resolution := by
  cases o with
  | apply host tags =>
    rw [perform, cache_apply]
    exact ⟨rfl, rfl⟩
  | insert host tags expires =>
    rw [perform, Cache.insert]
    split <;> exact ⟨rfl, rfl⟩
  | evict maxIdle => exact ⟨rfl, rfl⟩

theorem sinceEpoch_perform (c : Cache) (now : Nat) (o : Operation) :
    (c.perform now o).sinceEpoch = c.sinceEpoch := by
  funext t
  rw [sinceEpoch, sinceEpoch, (clock_perform c now o).1, (clock_perform c now o).2]

theorem sinceEpoch_eq (c : Cache) (now : Nat) : c.sinceEpoch now = word (c.elapsed now) :=
  rfl

variable {c : Cache} {uses : String → Option Nat}

theorem Stamped.perform (h : c.Stamped uses) (now : Nat) (o : Operation) :
    (c.perform now o).Stamped fun host => if c.isUse host o then some now else uses host := by
  refine ⟨?_, fun host e he => ?_⟩
  · cases o with
    | apply other tags => exact h.distinct.apply other tags now
    | insert other tags expires => exact h.distinct.insert tags expires now
    | evict maxIdle => exact h.distinct.evict maxIdle now
  rw [sinceEpoch_perform]
  cases o with
  | apply other tags =>
    rw [Cache.perform, find?_apply] at he
    by_cases hhost : host = other
    · subst hhost
      rw [if_pos rfl, Option.map_eq_some_iff] at he
      obtain ⟨old, hold, rfl⟩ := he
      exact ⟨now, by simp [isUse, hold], rfl⟩
    · rw [if_neg hhost] at he
      simpa [isUse, hhost] using h.stamp host e he
  | insert other tags expires =>
    rw [Cache.perform, find?_insert] at he
    by_cases hhost : host = other
    · subst hhost
      rw [if_pos rfl, Option.some.injEq] at he
      cases hfind : c.find? host with
      | none =>
        rw [hfind] at he
        exact ⟨now, by simp [isUse, hfind], he ▸ rfl⟩
      | some old =>
        rw [hfind] at he
        obtain ⟨last, hlast, hstamp⟩ := h.stamp host old hfind
        exact ⟨last, by simp [isUse, hfind, hlast], he ▸ hstamp⟩
    · rw [if_neg hhost] at he
      simpa [isUse, hhost] using h.stamp host e he
  | evict maxIdle =>
    rw [Cache.perform, find?_evict h.distinct] at he
    exact h.stamp host e (Option.filter_eq_some_iff.mp he).1

theorem Stamped.performAll (h : c.Stamped uses) (run : List (Nat × Operation)) :
    (c.performAll run).Stamped fun host => lastUse host c (uses host) run := by
  induction run generalizing c uses with
  | nil => exact h
  | cons first rest ih => exact ih (h.perform first.1 first.2)

theorem lastUse_mem {host : String} {last : Option Nat} {t : Nat} {run : List (Nat × Operation)}
    (h : lastUse host c last run = some t) : last = some t ∨ t ∈ run.map Prod.fst := by
  induction run generalizing c last with
  | nil => exact .inl h
  | cons first rest ih =>
    obtain ⟨now, o⟩ := first
    rcases ih h with hhere | hlater
    · split at hhere
      · exact .inr (List.mem_cons.mpr (.inl (Option.some.inj hhere).symm))
      · exact .inl hhere
    · exact .inr (List.mem_cons_of_mem _ hlater)

-- What is compared are the stamps, so it is enough that they agree with the measure.
theorem Stamped.forgetsUnused (h : c.Stamped uses) {maxIdle now limit : Nat}
    {measure : Nat → Nat} (hagree : ∀ host last, uses host = some last →
      (c.sinceEpoch now - word maxIdle ≤ c.sinceEpoch last ↔
        ¬ measure last + limit < measure now)) :
    c.ForgetsUnused uses maxIdle now measure limit := by
  have hstamp : ∀ e ∈ c.entries, ∃ last, uses e.host = some last ∧
      e.lastUsed = c.sinceEpoch last := fun e he => h.stamp e.host e (h.distinct.find he)
  have hentries : (c.evict maxIdle now).1.entries =
      c.entries.filter fun e => !isUnused measure limit now (uses e.host) := by
    refine List.filter_congr fun e he => ?_
    obtain ⟨last, hlast, hused⟩ := hstamp e he
    rw [hused, hlast, isUnused, Bool.eq_iff_iff, decide_eq_true_iff, hagree e.host last hlast,
      Bool.not_eq_true', decide_eq_false_iff_not]
  refine ⟨h.distinct, fun e he => ?_, hentries, ?_⟩
  · obtain ⟨last, hlast, -⟩ := hstamp e he
    rw [hlast, Option.isSome_some]
  · have hcount : (c.evict maxIdle now).2 =
        c.entries.length - (c.evict maxIdle now).1.entries.length := rfl
    have hsplit := List.length_eq_countP_add_countP
      (fun e : CachedHost => isUnused measure limit now (uses e.host)) (l := c.entries)
    rw [hcount, hentries, ← List.countP_eq_length_filter]
    simp only [Bool.not_eq_true, Bool.decide_eq_false] at hsplit
    omega

theorem stamped_start (epoch resolution : Nat) :
    ({ epoch, resolution } : Cache).Stamped fun _ => none :=
  ⟨List.nodup_nil, fun _ _ h => nomatch h⟩

end Cache

-- An eviction compares 64-bit counts of milliseconds. As long as neither the clock nor the limit is
-- beyond these, it forgets the hosts that were not used for longer than the limit.
theorem unused_forgotten (epoch resolution : Nat) (run : List (Nat × Cache.Operation))
    (seconds now : Nat) :
    let start : Cache := { epoch, resolution }
    let c := start.performAll run
    let uses (host : String) := Cache.lastUse host start none run
    c.ForgetsUnused uses (seconds * 1000) now c.sinceEpoch (Cache.word (seconds * 1000)) ∧
    ((run.map Prod.fst ++ [now]).Pairwise (· ≤ ·) → c.elapsed now < 2 ^ 64 →
      seconds * 1000 < 2 ^ 64 →
      c.ForgetsUnused uses (seconds * 1000) now c.elapsed (seconds * 1000)) := by
  intro start c uses
  have hstamped : c.Stamped uses := (Cache.stamped_start epoch resolution).performAll run
  refine ⟨hstamped.forgetsUnused fun host last _ => by omega, ?_⟩
  intro hclock hnow hlimit
  refine hstamped.forgetsUnused fun host last hlast => ?_
  have hle : last ≤ now := by
    have hmem := (Cache.lastUse_mem hlast).resolve_left nofun
    exact (List.pairwise_append.mp hclock).2.2 last hmem now (List.mem_singleton_self now)
  have helapsed : c.elapsed last ≤ c.elapsed now :=
    Nat.div_le_div_right (Nat.sub_le_sub_right hle c.epoch)
  have hword (n : Nat) (hn : n < 2 ^ 64) : Cache.word n = n := Nat.mod_eq_of_lt hn
  rw [Cache.sinceEpoch_eq, Cache.sinceEpoch_eq, hword _ hnow, hword _ hlimit,
    hword _ (helapsed.trans_lt hnow)]
  omega

theorem renewed_host_forgotten :
    let start : Cache := { epoch := 500, resolution := 1000000 }
    let run : List (Nat × Cache.Operation) :=
      [(500, .insert "10.0.0.1" none 500), (500, .insert "10.0.0.2" none 500),
        (50000000400, .apply "10.0.0.2" .empty),
        (55000000000, .insert "10.0.0.1" (some (.ofList ["env:prod"])) 60000000000)]
    let c := start.performAll run
    let uses (host : String) := Cache.lastUse host start none run
    (run.map Prod.fst ++ [60000000500]).Pairwise (· ≤ ·) ∧ c.elapsed 60000000500 < 2 ^ 64 ∧
    uses "10.0.0.1" = some 500 ∧ uses "10.0.0.2" = some 50000000400 ∧
    ((c.evict 30000 60000000500).1.entries.map CachedHost.host = ["10.0.0.2"]) ∧
    (c.evict 30000 60000000500).2 = 1 ∧
    c.ForgetsUnused uses (30 * 1000) 60000000500 c.elapsed (30 * 1000) := by
  intro start run c uses
  have hclock : (run.map Prod.fst ++ [60000000500]).Pairwise (· ≤ ·) := by decide
  have hnow : c.elapsed 60000000500 < 2 ^ 64 := by decide +kernel
  exact ⟨hclock, hnow, by decide +kernel, by decide +kernel, by decide +kernel, by decide +kernel,
    (unused_forgotten 500 1000000 run 30 60000000500).2 hclock hnow (by decide)⟩

-- With a limit of 2 ^ 64 + 384 milliseconds a host is forgotten within a second.
theorem long_limit_cut :
    ¬ ∀ (run : List (Nat × Cache.Operation)) (seconds now : Nat), seconds < 2 ^ 64 →
      (run.map Prod.fst ++ [now]).Pairwise (· ≤ ·) →
      let c := ({} : Cache).performAll run
      c.elapsed now < 2 ^ 64 →
      c.ForgetsUnused (fun host => Cache.lastUse host {} none run) (seconds * 1000) now c.elapsed
        (seconds * 1000) := by
  intro h
  let run : List (Nat × Cache.Operation) := [(0, .insert "10.0.0.1" none 60000)]
  have hforgets := h run 18446744073709552 1000 (by decide) (by decide) (by decide +kernel)
  have hentries := hforgets.entries
  revert hentries
  decide +kernel

end StatsDaemon.Hosts
