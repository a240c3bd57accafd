import StatsDaemon.Hosts.Directory
import StatsDaemon.Proofs.Hosts.Table
import StatsDaemon.Proofs.Tags

namespace StatsDaemon.Hosts

def CacheStatus.ofAnswer : Answer → CacheStatus
  | .ok (some _) => .hit
  | _ => .negative

namespace Directory

inductive Event where
  | apply (host : String) (tags : Tags)
  -- The service takes the request that has waited longest.
  | start (reply : Reply)
  | result (lookup : Nat) (answer : Answer)
  | tick

def receive (d : Directory) (reply : Reply) (now : Nat) : Directory :=
  match d.mayStart, d.requests.receive? with
  | true, some (host, requests) => { d with requests }.startLookup host reply now
  | _, _ => d

def settle (d : Directory) (lookup : Nat) (answer : Answer) (now : Nat) : Directory :=
  match d.running[lookup]? with
  | some l =>
    ({ d with running := d.running.eraseIdx lookup }.finish l.host answer now).1
  | none => d

-- A service that has failed forgets nothing any more.
def clear (d : Directory) (now : Nat) : Directory :=
  if d.runs then (d.sweep now).1 else d

def step (d : Directory) (now : Nat) : Event → Directory
  | .apply host tags => (d.apply host tags now).1
  | .start reply => d.receive reply now
  | .result lookup answer => d.settle lookup answer now
  | .tick => d.clear now

def run (d : Directory) (events : List (Nat × Event)) : Directory :=
  events.foldl (fun d (now, event) => d.step now event) d

-- The answer that the service takes in at an event, kept or not, and when.
def takes (d : Directory) (now : Nat) : Event → List (Nat × Answer)
  | .result lookup answer => (d.running[lookup]?).toList.map fun _ => (now, answer)
  | _ => []

def taken : Directory → List (Nat × Event) → List (Nat × Answer)
  | _, [] => []
  | d, (now, event) :: events => d.takes now event ++ taken (d.step now event) events

structure Standing where
  answer : Answer
  since : Nat
  -- Whether the host was asked for since the end of the lifetime.
  isAsked : Bool
  deriving DecidableEq

def expiry (d : Directory) (s : Standing) : Nat :=
  s.since + d.lifetime s.answer

def forgets (d : Directory) (host : String) (now : Nat) : Bool :=
  (d.cache.find? host).isSome && ((d.clear now).cache.find? host).isNone

-- What becomes of the latest answer for a host when something happens.
def follow (d : Directory) (host : String) (standing : Option Standing) (now : Nat) :
    Event → Option Standing
  | .apply other _ =>
    if other = host then
      standing.map fun s => { s with isAsked := s.isAsked || d.expiry s ≤ now }
    else standing
  | .start _ => standing
  | .result lookup answer =>
    if (d.running[lookup]?).map Lookup.host = some host ∧ d.keeps answer now then
      some ⟨answer, now, false⟩
    else standing
  | .tick => if d.forgets host now then none else standing

-- The latest answer for a host that was kept in a run, unless there was none or the host was
-- forgotten since.
def latest (host : String) : Directory → Option Standing → List (Nat × Event) → Option Standing
  | _, standing, [] => standing
  | d, standing, (now, event) :: events =>
    latest host (d.step now event) (d.follow host standing now event) events

def found : Answer → List String
  | .ok (some tags) => tags
  | _ => []

theorem found_of_negative {answer : Answer} (h : CacheStatus.ofAnswer answer = .negative) :
    found answer = [] := by
  rcases answer with fault | _ | tags
  · rfl
  · rfl
  · cases h

-- Between two states a lookup of the host was requested. A service that has failed gets no message.
structure Requested (d d' : Directory) (host : String) : Prop where
  pending : d'.pending = d.pending ++ [host]
  waiting : d'.requests.waiting = if d.runs then d.requests.waiting ++ [host] else d.requests.waiting

structure Unrequested (d d' : Directory) : Prop where
  pending : d'.pending = d.pending
  requests : d'.requests = d.requests

structure Serves (d : Directory) (host : String) (tags : Tags) (now : Nat) (s : Standing) :
    Prop where
  entered : (d.cache.find? host).isSome
  status : (d.apply host tags now).2.1 = .ofAnswer s.answer
  union : ∀ tag, tag ∈ (d.apply host tags now).2.2.1.items ↔
    tag ∈ tags.items ∨ tag ∈ found s.answer
  unchanged : (d.apply host tags now).2.1 = .negative → (d.apply host tags now).2.2.1 = tags
  early : now < d.expiry s → d.Unrequested (d.apply host tags now).1
  due : d.expiry s ≤ now → s.isAsked = false → d.pending.length < d.settings.maxPendingLookups →
    d.Requested (d.apply host tags now).1 host

structure Misses (d : Directory) (host : String) (tags : Tags) (now : Nat) : Prop where
  unknown : d.cache.find? host = none
  status : (d.apply host tags now).2.1 = .miss
  unchanged : (d.apply host tags now).2.2.1 = tags
  requested : host ∉ d.pending → d.pending.length < d.settings.maxPendingLookups →
    d.Requested (d.apply host tags now).1 host
  refused : host ∈ d.pending ∨ d.settings.maxPendingLookups ≤ d.pending.length →
    d.Unrequested (d.apply host tags now).1

def Reads (d : Directory) (host : String) (tags : Tags) (now : Nat) : Option Standing → Prop
  | some s => d.Serves host tags now s
  | none => d.Misses host tags now

section Requesting

variable {d : Directory} {host : String}

theorem request_eq (d : Directory) (host : String) :
    (d.request host).1 =
      if host ∈ d.pending ∨ d.settings.maxPendingLookups ≤ d.pending.length then d
      else { d with pending := d.pending ++ [host], requests := d.requests.send host } := by
  by_cases hpending : host ∈ d.pending
  · simp [request, reserve, hpending]
  · by_cases hfull : d.settings.maxPendingLookups ≤ d.pending.length
    · simp [request, reserve, hpending, hfull]
    · simp [request, reserve, hpending, hfull]

theorem requested_request (hnew : host ∉ d.pending)
    (hroom : d.pending.length < d.settings.maxPendingLookups) :
    d.Requested (d.request host).1 host := by
  rw [request_eq, if_neg (not_or.mpr ⟨hnew, Nat.not_le_of_lt hroom⟩)]
  refine ⟨rfl, ?_⟩
  cases hruns : d.requests.isOpen <;>
    simp [runs, Mailbox.send, Mailbox.announce, Mailbox.deliver, hruns]

theorem unrequested_request
    (h : host ∈ d.pending ∨ d.settings.maxPendingLookups ≤ d.pending.length) :
    d.Unrequested (d.request host).1 := by
  rw [request_eq, if_pos h]
  exact ⟨rfl, rfl⟩

end Requesting

section Reading

variable (d : Directory) (host : String) (tags : Tags) (now : Nat)

def read : Directory :=
  { d with cache := (d.cache.apply host tags now).1 }

theorem apply_eq :
    (d.apply host tags now).1 =
      if (d.cache.apply host tags now).2.isStale then ((d.read host tags now).request host).1
      else d.read host tags now := by
  cases hstale : (d.cache.apply host tags now).2.isStale <;> simp [apply, read, hstale]

theorem status_apply :
    (d.apply host tags now).2.1 = (d.cache.apply host tags now).2.status := by
  cases hstale : (d.cache.apply host tags now).2.isStale <;> simp [apply, hstale]

theorem tags_apply :
    (d.apply host tags now).2.2.1 = (d.cache.apply host tags now).2.tags := by
  cases hstale : (d.cache.apply host tags now).2.isStale <;> simp [apply, hstale]

end Reading

theorem settings_step (d : Directory) (now : Nat) (event : Event) :
    (d.step now event).settings = d.settings := by
  cases event with
  | apply host tags =>
    rw [step, apply_eq, request_eq]
    split
    · split <;> rfl
    · rfl
  | start reply =>
    rw [step, receive]
    split <;> rfl
  | result lookup answer =>
    rw [step, settle]
    split
    · simp only [finish, enter]
      split <;> rfl
    · rfl
  | tick =>
    rw [step, clear]
    split <;> rfl

theorem keeps_congr {d d' : Directory} (h : d.settings = d'.settings) : d.keeps = d'.keeps := by
  unfold keeps lifetime
  rw [h]

theorem runs_finish (d : Directory) (running : List Lookup) (host : String) (answer : Answer)
    (now : Nat) :
    ({ d with running }.finish host answer now).1.runs = (d.runs && d.keeps answer now) := by
  have hkeeps : ({ d with running }.release host).keeps = d.keeps := keeps_congr rfl
  exact (runs_enter _ host answer now).trans (by rw [hkeeps]; rfl)

theorem runs_step (d : Directory) (now : Nat) (event : Event) :
    (d.step now event).runs = (d.runs && (d.takes now event).all fun r => d.keeps r.2 r.1) := by
  cases event with
  | apply host tags =>
    rw [step, apply_eq, request_eq]
    split
    · split
      · simp [takes, runs, read]
      · simp [takes, runs, read]
    · simp [takes, runs, read]
  | start reply =>
    rw [step, receive]
    split
    · rename_i hreceive
      simp [takes, runs, startLookup, Mailbox.isOpen_of_receive hreceive]
    · simp [takes]
  | result lookup answer =>
    rw [step, settle, takes]
    cases d.running[lookup]? with
    | none => simp
    | some l =>
      rw [Option.toList_some, List.map_singleton, List.all_cons, List.all_nil, Bool.and_true]
      exact runs_finish d (d.running.eraseIdx lookup) l.host answer now
  | tick =>
    rw [step, clear]
    split <;> simp [takes, runs, sweep]

theorem runs_run (d : Directory) (events : List (Nat × Event)) :
    (d.run events).runs = (d.runs && (taken d events).all fun r => d.keeps r.2 r.1) := by
  induction events generalizing d with
  | nil => simp [run, taken]
  | cons first rest ih =>
    have hkeeps := keeps_congr (d.settings_step first.1 first.2)
    exact (ih _).trans (by rw [runs_step, hkeeps, taken, List.all_append, Bool.and_assoc])

-- The invariant: the entry of a host holds the latest answer, and the host is not pending before it
-- is asked for after its lifetime.
structure Holds (host : String) (d : Directory) (standing : Option Standing) : Prop where
  distinct : d.cache.Distinct
  once : d.pending.Nodup
  entry : d.cache.contents host = standing.map fun s => (foundTags s.answer, d.expiry s)
  calm : ∀ s, standing = some s → s.isAsked = false → host ∉ d.pending

namespace Holds

variable {host : String} {d : Directory} {standing : Option Standing} {s : Standing}

theorem found_apply (h : Holds host d (some s)) (tags : Tags) (now : Nat) :
    (d.cache.apply host tags now).2 =
      ⟨.ofAnswer s.answer, tags.extend (found s.answer), d.expiry s ≤ now⟩ := by
  obtain ⟨e, hfind, hentry⟩ := Option.map_eq_some_iff.mp h.entry
  obtain ⟨htags, hexpires⟩ := Prod.mk.inj hentry
  rw [Cache.found_apply_of_some hfind, htags, hexpires]
  rcases s.answer with fault | _ | tags'
  · simp [foundTags, CacheStatus.ofAnswer, found, Tags.extend_nil]
  · simp [foundTags, CacheStatus.ofAnswer, found, Tags.extend_nil]
  · simp [foundTags, CacheStatus.ofAnswer, found, Tags.extend_ofList]

theorem found_apply_none (h : Holds host d none) (tags : Tags) (now : Nat) :
    (d.cache.apply host tags now).2 = ⟨.miss, tags, true⟩ :=
  Cache.found_apply_of_none (Option.map_eq_none_iff.mp h.entry) tags now

theorem read (h : Holds host d standing) (other : String) (tags : Tags) (now : Nat) :
    Holds host (d.read other tags now) (d.follow host standing now (.apply other tags)) where
  distinct := h.distinct.apply other tags now
  once := h.once
  entry := by
    refine (Cache.contents_apply ..).trans (h.entry.trans ?_)
    rw [follow]
    split
    · rw [Option.map_map]
      rfl
    · rfl
  calm := by
    rw [follow]
    split
    · intro s hs hasked
      obtain ⟨old, hold, rfl⟩ := Option.map_eq_some_iff.mp hs
      exact h.calm old hold (Bool.or_eq_false_iff.mp hasked).1
    · exact h.calm

theorem request (h : Holds host d standing) {other : String}
    (hasked : other = host → ∀ s, standing = some s → s.isAsked = true) :
    Holds host (d.request other).1 standing := by
  rw [request_eq]
  split
  · exact h
  · rename_i hroom
    obtain ⟨hnew, -⟩ := not_or.mp hroom
    refine ⟨h.distinct, ?_, h.entry, fun s hs hcalm => ?_⟩
    · exact List.concat_eq_append ▸ h.once.concat hnew
    · rw [List.mem_append, List.mem_singleton, not_or]
      refine ⟨h.calm s hs hcalm, fun heq => ?_⟩
      rw [hasked heq.symm s hs] at hcalm
      cases hcalm

theorem apply (h : Holds host d standing) (other : String) (tags : Tags) (now : Nat) :
    Holds host (d.apply other tags now).1 (d.follow host standing now (.apply other tags)) := by
  have hread := h.read other tags now
  rw [apply_eq]
  split
  · rename_i hstale
    refine hread.request fun heq s hs => ?_
    -- A stale answer has outlived its lifetime, so that the host counts as asked for.
    subst heq
    rw [follow, if_pos rfl] at hs
    obtain ⟨old, rfl, rfl⟩ := Option.map_eq_some_iff.mp hs
    rw [h.found_apply] at hstale
    exact Bool.or_eq_true_iff.mpr (.inr hstale)
  · exact hread

theorem receive (h : Holds host d standing) (reply : Reply) (now : Nat) :
    Holds host (d.receive reply now) standing := by
  unfold Directory.receive
  split
  · exact ⟨h.distinct, h.once, h.entry, h.calm⟩
  · exact h

theorem release (h : Holds host d standing) (running : List Lookup) (other : String) :
    Holds host ({ d with running }.release other) standing where
  distinct := h.distinct
  once := h.once.erase other
  entry := h.entry
  calm s hs hcalm := fun hmem => h.calm s hs hcalm (List.mem_of_mem_erase hmem)

theorem stop (h : Holds host d standing) : Holds host d.stop standing :=
  ⟨h.distinct, h.once, h.entry, h.calm⟩

theorem finish (h : Holds host d standing) (running : List Lookup) (other : String)
    (answer : Answer) (now : Nat) :
    Holds host ({ d with running }.finish other answer now).1
      (if other = host ∧ d.keeps answer now then some ⟨answer, now, false⟩ else standing) := by
  have hreleased := h.release running other
  by_cases hkeeps : d.keeps answer now = true
  · have henter : ({ d with running }.finish other answer now).1 =
        { { d with running }.release other with
          cache := d.cache.insert other (foundTags answer) (now + d.lifetime answer) now } :=
      if_pos hkeeps
    simp only [henter, hkeeps, and_true]
    refine ⟨h.distinct.insert _ _ now, hreleased.once, ?_, ?_⟩
    · refine (Cache.contents_insert ..).trans ?_
      by_cases heq : other = host
      · rw [if_pos heq, if_pos heq.symm]
        rfl
      · rw [if_neg heq, if_neg (Ne.symm heq)]
        exact h.entry
    · intro s hs hcalm
      by_cases heq : other = host
      · exact heq ▸ h.once.not_mem_erase
      · rw [if_neg heq] at hs
        exact hreleased.calm s hs hcalm
  · have henter : ({ d with running }.finish other answer now).1 =
        ({ d with running }.release other).stop := if_neg hkeeps
    rw [henter, if_neg fun hkept => hkeeps hkept.2]
    exact hreleased.stop

theorem settle (h : Holds host d standing) (lookup : Nat) (answer : Answer) (now : Nat) :
    Holds host (d.settle lookup answer now)
      (d.follow host standing now (.result lookup answer)) := by
  cases hlookup : d.running[lookup]? with
  | none => simpa [Directory.settle, follow, hlookup] using h
  | some l =>
    simpa [Directory.settle, follow, hlookup] using
      h.finish (d.running.eraseIdx lookup) l.host answer now

theorem tick (h : Holds host d standing) (now : Nat) :
    Holds host (d.clear now) (d.follow host standing now .tick) := by
  by_cases hruns : d.runs = true
  case neg =>
    have hclear : d.clear now = d := if_neg hruns
    have hforgets : d.forgets host now = false := by
      rw [forgets, hclear]
      cases d.cache.find? host <;> rfl
    rw [follow, hforgets, hclear]
    exact h
  have hclear : d.clear now = (d.sweep now).1 := if_pos hruns
  have hdistinct := h.distinct.evict (d.settings.evict * 1000) now
  have hfind := Cache.find?_evict h.distinct (d.settings.evict * 1000) now host
  rw [follow]
  by_cases hforgets : d.forgets host now = true
  · rw [if_pos hforgets]
    obtain ⟨-, hnone⟩ := Bool.and_eq_true_iff.mp hforgets
    rw [hclear] at hnone ⊢
    exact ⟨hdistinct, h.once,
      Option.map_eq_none_iff.mpr (Option.isNone_iff_eq_none.mp hnone), nofun⟩
  · rw [if_neg hforgets]
    rw [forgets, hclear] at hforgets
    have hkept : (d.sweep now).1.cache.find? host = d.cache.find? host := by
      refine hfind.trans ?_
      cases he : d.cache.find? host with
      | none => rfl
      | some e =>
        refine Option.filter_eq_some_iff.mpr ⟨rfl, ?_⟩
        -- An entry that leaves with the sweep is one that the tick forgets.
        by_contra hold
        rw [he, Option.filter_some, if_neg hold] at hfind
        exact hforgets (Bool.and_eq_true_iff.mpr
          ⟨Option.isSome_of_eq_some he, Option.isNone_iff_eq_none.mpr hfind⟩)
    exact hclear ▸ ⟨hdistinct, h.once, (congrArg _ hkept).trans h.entry, h.calm⟩

theorem step (h : Holds host d standing) (now : Nat) : (event : Event) →
    Holds host (d.step now event) (d.follow host standing now event)
  | .apply other tags => h.apply other tags now
  | .start reply => h.receive reply now
  | .result lookup answer => h.settle lookup answer now
  | .tick => h.tick now

theorem run (h : Holds host d standing) (events : List (Nat × Event)) :
    Holds host (d.run events) (latest host d standing events) := by
  induction events generalizing d standing with
  | nil => exact h
  | cons first rest ih => exact ih (h.step first.1 first.2)

theorem start (settings : Config.Cloud) (now : Nat) (host : String) :
    Holds host (.start settings now) none where
  distinct := List.nodup_nil
  once := List.nodup_nil
  entry := rfl
  calm := nofun

theorem serves (h : Holds host d (some s)) (tags : Tags) (now : Nat) :
    d.Serves host tags now s := by
  have hfound := h.found_apply tags now
  refine ⟨?_, ?_, fun tag => ?_, fun hnegative => ?_, fun hearly => ?_, fun hdue hcalm hroom => ?_⟩
  · rw [← Option.isSome_map, ← Cache.contents, h.entry, Option.map_some, Option.isSome_some]
  · rw [status_apply, hfound]
  · rw [tags_apply, hfound, Tags.mem_extend, or_comm]
  · rw [status_apply, hfound] at hnegative
    rw [tags_apply, hfound, found_of_negative hnegative]
    exact tags.extend_nil
  · rw [apply_eq, hfound, if_neg (by simpa using hearly)]
    exact ⟨rfl, rfl⟩
  · rw [apply_eq, hfound, if_pos (by simpa using hdue)]
    have hrequested := requested_request (d := d.read host tags now) (h.calm s rfl hcalm) hroom
    exact ⟨hrequested.pending, hrequested.waiting⟩

theorem misses (h : Holds host d none) (tags : Tags) (now : Nat) : d.Misses host tags now := by
  have hfound := h.found_apply_none tags now
  have happly : (d.apply host tags now).1 = ((d.read host tags now).request host).1 := by
    rw [apply_eq, hfound, if_pos rfl]
  refine ⟨Option.map_eq_none_iff.mp h.entry, ?_, ?_, fun hnew hroom => ?_, fun hrefused => ?_⟩
  · rw [status_apply, hfound]
  · rw [tags_apply, hfound]
  · have hrequested := requested_request (d := d.read host tags now) hnew hroom
    exact happly ▸ ⟨hrequested.pending, hrequested.waiting⟩
  · have hunrequested := unrequested_request (d := d.read host tags now) hrefused
    exact happly ▸ ⟨hunrequested.pending, hunrequested.requests⟩

theorem reads (h : Holds host d standing) (tags : Tags) (now : Nat) :
    d.Reads host tags now standing := by
  cases standing with
  | some s => exact h.serves tags now
  | none => exact h.misses tags now

end Holds

-- Whatever readers and the service do, a reader gets the latest answer for a host that was kept. All
-- of them are kept while the service runs, which is until one outlives the clock.
theorem latest_served (settings : Config.Cloud) (start : Nat) (events : List (Nat × Event))
    (host : String) (tags : Tags) (now : Nat) :
    let first := Directory.start settings start
    let d := first.run events
    d.Reads host tags now (latest host first none events) ∧
      (d.runs = true ↔ settings.refresh ≠ 0 ∧ ∀ r ∈ taken first events, first.keeps r.2 r.1) := by
  refine ⟨((Holds.start settings start host).run events).reads tags now, ?_⟩
  have hfirst : (Directory.start settings start).runs = (settings.refresh != 0) := rfl
  rw [runs_run, Bool.and_eq_true_iff, hfirst, bne_iff_ne, List.all_eq_true]

-- A source does not know the host. That is served for good, and asked again after ten seconds.
theorem unknown_host_asked_again :
    let settings : Config.Cloud := { source := .static [], negativeLifetime := 10 }
    let events : List (Nat × Event) :=
      [(0, .apply "10.0.0.9" .empty), (0, .start ⟨.ok none, 0⟩), (5, .result 0 (.ok none)),
        (7000, .tick), (9000, .apply "10.0.0.9" .empty)]
    latest "10.0.0.9" (.start settings 0) none events = some ⟨.ok none, 5, false⟩ ∧
      ((start settings 0).run events).runs = true ∧
      ((start settings 0).run events).Reads "10.0.0.9" .empty 11000
        (some ⟨.ok none, 5, false⟩) := by
  intro settings events
  have hlatest : latest "10.0.0.9" (.start settings 0) none events =
      some ⟨.ok none, 5, false⟩ := by
    decide +kernel
  have hkept : ∀ r ∈ taken (.start settings 0) events, (start settings 0).keeps r.2 r.1 := by
    decide +kernel
  have hperiod : settings.refresh ≠ 0 := by decide
  refine ⟨hlatest, ?_⟩
  -- Nothing else about the run matters.
  clear_value events settings
  obtain ⟨hreads, hruns⟩ := latest_served settings 0 events "10.0.0.9" .empty 11000
  exact ⟨hruns.mpr ⟨hperiod, hkept⟩, hlatest ▸ hreads⟩

-- With a lifetime of 2 ^ 64 - 1 seconds the tags of a host are found, and no reader gets them.
theorem endless_answer_lost :
    ¬ ∀ (settings : Config.Cloud) (events : List (Nat × Event)) (host : String) (answer : Answer)
        (now : Nat), settings.refresh ≠ 0 → settings.refresh < 2 ^ 64 →
        let d := (start settings 0).run events
        (d.running[0]?).map Lookup.host = some host →
        (d.step now (.result 0 answer)).Reads host .empty now (some ⟨answer, now, false⟩) := by
  intro h
  let settings : Config.Cloud :=
    { source := .static [("10.0.0.1", ["env:prod"])], refresh := 18446744073709551615 }
  let answer : Answer := .ok (some ["env:prod"])
  let events : List (Nat × Event) := [(0, .apply "10.0.0.1" .empty), (0, .start ⟨answer, 0⟩)]
  have hreads := h settings events "10.0.0.1" answer 0 (by decide) (by decide) (by decide +kernel)
  have hstatus := hreads.status
  revert hstatus
  decide +kernel

end Directory

end StatsDaemon.Hosts
