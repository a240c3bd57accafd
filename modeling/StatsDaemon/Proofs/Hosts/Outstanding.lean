import Mathlib
import StatsDaemon.Proofs.Hosts.Exchange

namespace StatsDaemon.Hosts

def Errand.Before (a b : Errand) : Prop :=
  a.host = b.host → a.ticket < b.ticket

-- The books of pending hosts: `outstanding` lists the lookups that keep their hosts pending,
-- `released` those that do so no more, in the order of their release.
structure Books (limit : Nat) (pending : List String) (issued : Nat)
    (outstanding released : List Errand) : Prop where
  distinct : pending.Nodup
  bounded : pending.length ≤ limit
  hosts : pending.Perm (outstanding.map Errand.host)
  numbered : ∀ a ∈ outstanding ++ released, a.ticket < issued
  ordered : released.Pairwise Errand.Before
  ahead : ∀ a ∈ released, ∀ b ∈ outstanding, a.Before b

namespace Books

variable {limit issued : Nat} {pending : List String} {outstanding released : List Errand}

theorem empty (limit : Nat) : Books limit [] 0 [] [] where
  distinct := .nil
  bounded := Nat.zero_le _
  hosts := .refl _
  numbered := by simp
  ordered := .nil
  ahead := by simp

theorem of_perm {moved : List Errand} (b : Books limit pending issued outstanding released)
    (same : outstanding.Perm moved) : Books limit pending issued moved released where
  distinct := b.distinct
  bounded := b.bounded
  hosts := b.hosts.trans (same.map _)
  numbered a ha := b.numbered a (((same.append_right released).mem_iff).mpr ha)
  ordered := b.ordered
  ahead a ha c hc := b.ahead a ha c (same.mem_iff.mpr hc)

theorem issue {host : String} (b : Books limit pending issued outstanding released)
    (new : host ∉ pending) (room : pending.length < limit) :
    Books limit (pending ++ [host]) (issued + 1) (outstanding ++ [⟨host, issued⟩]) released where
  distinct := by
    rw [List.nodup_append_comm]
    exact List.nodup_cons.mpr ⟨new, b.distinct⟩
  bounded := by simpa using room
  hosts := by simpa using b.hosts.append_right [host]
  numbered a ha := by
    simp only [List.mem_append, List.mem_singleton] at ha
    obtain (old | rfl) | old := ha
    · exact Nat.lt_succ_of_lt (b.numbered a (List.mem_append_left _ old))
    · exact Nat.lt_succ_self _
    · exact Nat.lt_succ_of_lt (b.numbered a (List.mem_append_right _ old))
  ordered := b.ordered
  ahead a ha c hc := by
    obtain old | rfl := List.mem_append.mp hc |>.imp_right List.mem_singleton.mp
    · exact b.ahead a ha c old
    · exact fun _ => b.numbered a (List.mem_append_right _ ha)

-- No other outstanding lookup has the host of the one that is released.
theorem release {errand : Errand} (b : Books limit pending issued (errand :: outstanding) released) :
    Books limit (pending.erase errand.host) issued outstanding (released ++ [errand]) where
  distinct := b.distinct.erase _
  bounded := (List.length_erase_le).trans b.bounded
  hosts := by simpa using b.hosts.erase errand.host
  numbered a ha := b.numbered a (by
    simp only [List.mem_append, List.mem_cons, List.not_mem_nil, or_false] at ha ⊢
    tauto)
  ordered := by
    refine List.pairwise_append.mpr ⟨b.ordered, List.pairwise_singleton _ _, ?_⟩
    simpa using fun a ha => b.ahead a ha errand List.mem_cons_self
  ahead a ha c hc := by
    obtain old | rfl := List.mem_append.mp ha |>.imp_right List.mem_singleton.mp
    · exact b.ahead a old c (List.mem_cons_of_mem _ hc)
    · intro same
      have once : ((a :: outstanding).map Errand.host).Nodup := b.hosts.nodup b.distinct
      have absent := (List.nodup_cons.mp once).1
      exact absurd (same ▸ List.mem_map_of_mem hc) absent

theorem forget {errand : Errand}
    (b : Books limit pending issued outstanding (released ++ [errand])) :
    Books limit pending issued outstanding released where
  distinct := b.distinct
  bounded := b.bounded
  hosts := b.hosts
  numbered a ha := b.numbered a (by
    simp only [List.mem_append, List.mem_singleton] at ha ⊢
    tauto)
  ordered := (List.pairwise_append.mp b.ordered).1
  ahead a ha := b.ahead a (List.mem_append_left _ ha)

end Books

def Finding.Shown (d : Directory) (f : Finding) (e : CachedHost) : Prop :=
  f.errand.host = e.host ∧ e.tags = Directory.foundTags f.answer ∧
    e.expires = f.now + d.lifetime f.answer

-- Every entry holds an answer that was written, and none was written for the host that was
-- requested later.
def Cache.ShowsLatest (c : Cache) (d : Directory) (entered : List Finding) : Prop :=
  ∀ e ∈ c.entries, ∃ f ∈ entered, f.Shown d e ∧
    ∀ g ∈ entered, g.errand.host = e.host → g.errand.ticket ≤ f.errand.ticket

namespace Cache

variable {c : Cache} {d : Directory} {entered : List Finding}

theorem ShowsLatest.of_settings {d' : Directory} (h : c.ShowsLatest d entered)
    (same : d'.settings = d.settings) : c.ShowsLatest d' entered := by
  have lifetime (a : Answer) : d'.lifetime a = d.lifetime a := by
    simp only [Directory.lifetime, same]
  simpa only [ShowsLatest, Finding.Shown, lifetime] using h

theorem ShowsLatest.apply (h : c.ShowsLatest d entered) (host : String) (tags : Tags) (now : Nat) :
    (c.apply host tags now).1.ShowsLatest d entered := by
  have used : (c.change host fun e => { e with lastUsed := c.sinceEpoch now }).ShowsLatest d
      entered := by
    intro e he
    obtain ⟨old, mem, rfl⟩ := List.mem_map.mp he
    have known := h old mem
    split <;> exact known
  simp only [Cache.apply]
  split
  · exact h
  · split <;> exact used

theorem ShowsLatest.evict (h : c.ShowsLatest d entered) (maxIdle now : Nat) :
    (c.evict maxIdle now).1.ShowsLatest d entered :=
  fun e he => h e (List.mem_filter.mp he).1

theorem ShowsLatest.insert (h : c.ShowsLatest d entered) {f : Finding}
    (later : ∀ g ∈ entered, g.errand.Before f.errand) :
    (c.insert f.errand.host (Directory.foundTags f.answer) (f.now + d.lifetime f.answer)
      f.now).ShowsLatest d (entered ++ [f]) := by
  have fresh (e : CachedHost) (shown : f.Shown d e) : ∃ f' ∈ entered ++ [f], f'.Shown d e ∧
      ∀ g ∈ entered ++ [f], g.errand.host = e.host → g.errand.ticket ≤ f'.errand.ticket := by
    refine ⟨f, by simp, shown, fun g hg same => ?_⟩
    obtain old | rfl := List.mem_append.mp hg |>.imp_right List.mem_singleton.mp
    · exact (later g old (same.trans shown.1.symm)).le
    · exact le_rfl
  have other (e : CachedHost) (mem : e ∈ c.entries) (ne : e.host ≠ f.errand.host) :
      ∃ f' ∈ entered ++ [f], f'.Shown d e ∧
        ∀ g ∈ entered ++ [f], g.errand.host = e.host → g.errand.ticket ≤ f'.errand.ticket := by
    obtain ⟨f', mem', shown, latest⟩ := h e mem
    refine ⟨f', List.mem_append_left _ mem', shown, fun g hg same => ?_⟩
    obtain old | rfl := List.mem_append.mp hg |>.imp_right List.mem_singleton.mp
    · exact latest g old same
    · exact absurd same.symm ne
  intro e he
  simp only [Cache.insert] at he
  split at he
  case h_1 =>
    obtain ⟨old, mem, rfl⟩ := List.mem_map.mp he
    by_cases same : old.host = f.errand.host
    · exact fresh _ (by simp [Finding.Shown, same])
    · simpa [same] using other old mem same
  case h_2 none =>
    obtain mem | rfl := List.mem_append.mp he |>.imp_right List.mem_singleton.mp
    · have ne : e.host ≠ f.errand.host := by simpa using List.find?_eq_none.mp none e mem
      exact other e mem ne
    · exact fresh _ ⟨rfl, rfl, rfl⟩

end Cache

namespace Exchange

def unsettled (x : Exchange) (isPending : Bool) : List Errand :=
  match x.settling with
  | none => []
  | some (finding, pending) => if pending = isPending then [finding.errand] else []

def outstanding (x : Exchange) : List Errand :=
  x.sending ++ x.queued ++ x.started ++ x.abandoned ++ x.unsettled true

def released (x : Exchange) : List Errand :=
  x.entered.map Finding.errand ++ x.unsettled false

-- The invariant: the books are kept, the messages and the lookups that run are those that the
-- books name, and the cache shows the latest answers.
structure Orderly (settings : Config.Cloud) (x : Exchange) : Prop where
  fixed : x.directory.settings = settings
  queued : x.queued.map Errand.host = x.directory.requests.waiting
  started : x.started.map Errand.host = x.directory.running.map Lookup.host
  room : x.started.length ≤ max 1 settings.maxConcurrentLookups
  books : Books settings.maxPendingLookups x.directory.pending x.issued x.outstanding x.released
  shown : x.directory.cache.ShowsLatest x.directory x.entered

namespace Orderly

variable {settings : Config.Cloud} {x : Exchange}

theorem perm_eraseIdx {l : List Errand} {i : Nat} {e : Errand} (h : l[i]? = some e) :
    l.Perm (e :: l.eraseIdx i) := by
  obtain ⟨lt, rfl⟩ := List.getElem?_eq_some_iff.mp h
  exact (List.getElem_cons_eraseIdx_perm lt).symm

theorem length_running (o : Orderly settings x) :
    x.started.length = x.directory.running.length := by
  simpa using congrArg List.length o.started

theorem start (settings : Config.Cloud) (now : Nat) : Orderly settings (.start settings now) where
  fixed := rfl
  queued := rfl
  started := rfl
  room := Nat.zero_le _
  books := .empty _
  shown := by simp [Cache.ShowsLatest, Exchange.start, Directory.start]

theorem read (o : Orderly settings x) (host : String) (tags : Tags) (now : Nat) :
    Orderly settings (x.read host tags now) where
  fixed := o.fixed
  queued := o.queued
  started := o.started
  room := o.room
  books := o.books
  shown := (o.shown.apply host tags now).of_settings rfl

theorem reserve (o : Orderly settings x) (reader : Nat) :
    Orderly settings (x.reserve reader) := by
  unfold Exchange.reserve
  split
  case h_1 => exact o
  case h_2 host _ =>
    by_cases known : x.directory.pending.contains host
    · simp only [Directory.reserve, known, if_true]
      exact { o with }
    by_cases full : x.directory.settings.maxPendingLookups ≤ x.directory.pending.length
    · simp only [Directory.reserve, known, full, if_true]
      exact { o with }
    have new : host ∉ x.directory.pending := by simpa using known
    have issued := o.books.issue new (o.fixed ▸ Nat.lt_of_not_le full)
    have placed : (x.outstanding ++ [Errand.mk host x.issued]).Perm
        (x.sending ++ [⟨host, x.issued⟩] ++ x.queued ++ x.started ++ x.abandoned
          ++ x.unsettled true) := by
      simp only [List.perm_iff_count, outstanding, List.count_append]
      omega
    simp only [Directory.reserve, known, full]
    exact { o with books := issued.of_perm placed, shown := o.shown.of_settings rfl }

theorem send (o : Orderly settings x) (reader : Nat) : Orderly settings (x.send reader) := by
  unfold Exchange.send
  split
  case h_1 => exact o
  case h_2 errand at_reader =>
    have placed (moved kept : List Errand)
        (same : (moved ++ kept).Perm (x.queued ++ x.abandoned ++ [errand])) :
        x.outstanding.Perm (x.sending.eraseIdx reader ++ moved ++ x.started ++ kept ++
          x.unsettled true) := by
      have taken := List.perm_iff_count.mp (perm_eraseIdx at_reader)
      have same := List.perm_iff_count.mp same
      simp only [List.count_cons, List.count_append, List.count_nil] at taken same
      simp only [List.perm_iff_count, outstanding, List.count_append, taken]
      intro e
      have := same e
      omega
    by_cases runs : x.directory.runs = true
    case pos =>
      rw [Directory.runs] at runs
      rw [Directory.runs, if_pos runs]
      exact { o with
        queued := by simp [Mailbox.send, Mailbox.announce, Mailbox.deliver, runs, o.queued]
        books := o.books.of_perm (placed _ _ (by
          simp only [List.perm_iff_count, List.count_append]
          omega))
        shown := o.shown.of_settings rfl }
    case neg =>
      rw [Directory.runs] at runs
      rw [Directory.runs, if_neg runs]
      exact { o with
        queued := by simp [Mailbox.send, Mailbox.announce, Mailbox.deliver, runs, o.queued]
        books := o.books.of_perm (placed _ _ (by rw [List.append_assoc]))
        shown := o.shown.of_settings rfl }

theorem receive (o : Orderly settings x) (reply : Reply) (now : Nat) :
    Orderly settings (x.receive reply now) := by
  unfold Exchange.receive
  by_cases ready : x.isReady
  case neg => simpa [ready] using o
  have room : x.started.length < max x.directory.settings.maxConcurrentLookups 1 := by
    simpa [o.length_running, Directory.mayStart] using (Bool.and_eq_true_iff.mp ready).2
  have messages := o.queued
  rcases waits : x.directory.requests.waiting with _ | ⟨host, waiting⟩
  case nil => simpa [ready, Mailbox.receive?, waits] using o
  rw [waits] at messages
  obtain ⟨errand, queued, first, rfl, rfl⟩ := List.map_eq_cons_iff.mp messages
  have placed : x.outstanding.Perm (x.sending ++ queued ++ (x.started ++ [errand]) ++
      x.abandoned ++ x.unsettled true) := by
    simp only [List.perm_iff_count, outstanding, first, List.count_append, List.count_cons,
      List.count_nil]
    omega
  simp only [ready, if_true, Mailbox.receive?, waits, first, List.tail_cons, List.head?_cons,
    Option.toList_some]
  exact { o with
    queued := rfl
    started := by simp [Directory.startLookup, Lookup.start_host, o.started]
    room := by simpa [o.fixed, max_comm] using room
    books := o.books.of_perm placed
    shown := o.shown.of_settings rfl }

theorem finish (o : Orderly settings x) (lookup : Nat) (answer : Answer) (now : Nat) :
    Orderly settings (x.finish lookup answer now) := by
  unfold Exchange.finish
  split
  case h_2 => exact o
  case h_1 errand idle at_lookup =>
    have placed : x.outstanding.Perm (x.sending ++ x.queued ++ x.started.eraseIdx lookup ++
        x.abandoned ++ [errand]) := by
      have taken := List.perm_iff_count.mp (perm_eraseIdx at_lookup)
      simp only [List.count_cons] at taken
      simp only [List.perm_iff_count, outstanding, unsettled, idle, List.count_append,
        List.count_singleton, List.count_nil, taken]
      omega
    have released : x.released = x.entered.map Finding.errand := by
      simp [Exchange.released, unsettled, idle]
    have books := o.books.of_perm placed
    rw [released] at books
    exact { o with
      started := by rw [← List.eraseIdx_map, ← List.eraseIdx_map, o.started]
      room := (List.length_eraseIdx_le _ _).trans o.room
      books := by simpa [outstanding, Exchange.released, unsettled] using books
      shown := o.shown.of_settings rfl }

theorem release (o : Orderly settings x) : Orderly settings x.release := by
  unfold Exchange.release
  split
  case h_2 => exact o
  case h_1 finding settling =>
    have placed : x.outstanding.Perm
        (finding.errand :: (x.sending ++ x.queued ++ x.started ++ x.abandoned)) := by
      simp only [outstanding, unsettled, settling, if_true]
      exact List.perm_append_singleton _ _
    have released : x.released = x.entered.map Finding.errand := by
      simp [Exchange.released, unsettled, settling]
    have books := (o.books.of_perm placed).release
    rw [released] at books
    exact { o with
      books := by
        simpa [outstanding, Exchange.released, unsettled, Directory.release] using books
      shown := o.shown.of_settings rfl }

theorem enter (o : Orderly settings x) : Orderly settings x.enter := by
  unfold Exchange.enter
  split
  case h_2 => exact o
  case h_1 finding settling =>
    have released : x.released = x.entered.map Finding.errand ++ [finding.errand] := by
      simp [Exchange.released, unsettled, settling]
    have later : ∀ f ∈ x.entered, f.errand.Before finding.errand := by
      have ordered := o.books.ordered
      rw [released, List.pairwise_append] at ordered
      exact fun f hf => ordered.2.2 _ (List.mem_map_of_mem hf) _ (List.mem_singleton_self _)
    have books := o.books
    rw [released] at books
    cases keeps : x.directory.keeps finding.answer finding.now
    case true =>
      have written : x.directory.enter finding.errand.host finding.answer finding.now =
          { x.directory with
            cache := x.directory.cache.insert finding.errand.host
              (Directory.foundTags finding.answer)
              (finding.now + x.directory.lifetime finding.answer) finding.now } := if_pos keeps
      simp only [written, if_true]
      exact { o with
        books := by simpa [outstanding, Exchange.released, unsettled, settling] using books
        shown := (o.shown.insert later).of_settings rfl }
    case false =>
      -- The service ends, so what was queued or ran is abandoned, and its hosts stay pending.
      have failed : x.directory.enter finding.errand.host finding.answer finding.now =
          x.directory.stop := if_neg (Bool.eq_false_iff.mp keeps)
      have placed : x.outstanding.Perm
          (x.sending ++ [] ++ [] ++ (x.abandoned ++ x.queued ++ x.started) ++ []) := by
        simp only [List.perm_iff_count, outstanding, unsettled, settling, List.count_append,
          List.append_nil, reduceCtorEq, if_false]
        omega
      simp only [failed]
      exact { o with
        queued := rfl
        started := rfl
        room := Nat.zero_le _
        books := by
          simpa [outstanding, Exchange.released, unsettled, Directory.stop]
            using (books.of_perm placed).forget
        shown := o.shown.of_settings rfl }

theorem tick (o : Orderly settings x) (now : Nat) : Orderly settings (x.tick now) := by
  unfold Exchange.tick
  split
  case isTrue => exact { o with shown := (o.shown.evict _ now).of_settings rfl }
  case isFalse => exact o

theorem step (o : Orderly settings x) : (move : Move) → Orderly settings (x.step move)
  | .read host tags now => o.read host tags now
  | .reserve reader => o.reserve reader
  | .send reader => o.send reader
  | .receive reply now => o.receive reply now
  | .finish lookup answer now => o.finish lookup answer now
  | .release => o.release
  | .enter => o.enter
  | .tick now => o.tick now

theorem run (o : Orderly settings x) (moves : List Move) : Orderly settings (x.run moves) := by
  induction moves generalizing x with
  | nil => exact o
  | cons move rest ih => exact ih (o.step move)

end Orderly

def lookedUp (x : Exchange) : List String :=
  x.sending.map Errand.host ++ x.directory.requests.waiting ++
    x.directory.running.map Lookup.host

structure Single (settings : Config.Cloud) (x : Exchange) : Prop where
  once : x.lookedUp.Nodup
  pending : ∀ host ∈ x.lookedUp, host ∈ x.directory.pending
  fewPending : x.directory.pending.Nodup ∧
    x.directory.pending.length ≤ settings.maxPendingLookups
  fewRunning : x.directory.running.length ≤ max 1 settings.maxConcurrentLookups
  -- The answers for a host are written in the order in which they were requested.
  rising : x.entered.Pairwise fun f g => f.errand.Before g.errand
  shown : x.directory.cache.ShowsLatest x.directory x.entered

theorem Orderly.single {settings : Config.Cloud} {x : Exchange} (o : Orderly settings x) :
    x.Single settings := by
  have pending : x.directory.pending.Perm
      (x.lookedUp ++ (x.abandoned ++ x.unsettled true).map Errand.host) := by
    simpa [lookedUp, outstanding, ← o.queued, ← o.started] using o.books.hosts
  have once := pending.nodup o.books.distinct
  have written : (x.entered.map Finding.errand).Pairwise Errand.Before :=
    (List.pairwise_append.mp o.books.ordered).1
  exact {
    once := (List.nodup_append.mp once).1
    pending := fun host mem => pending.mem_iff.mpr (List.mem_append_left _ mem)
    fewPending := ⟨o.books.distinct, o.books.bounded⟩
    fewRunning := o.length_running ▸ o.room
    rising := List.pairwise_map.mp written
    shown := o.shown }

-- Whatever readers, the service and the lookups do, and in whatever order, no host is looked up
-- twice at a time, and no answer is replaced by one that was requested before it.
theorem lookups_single (settings : Config.Cloud) (now : Nat) (moves : List Move) :
    ((start settings now).run moves).Single settings ∧ ((start settings now).run moves).Coarsens :=
  ⟨((Orderly.start settings now).run moves).single, coarsens _⟩

end Exchange

end StatsDaemon.Hosts
