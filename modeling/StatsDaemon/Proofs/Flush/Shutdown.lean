import Mathlib
import StatsDaemon.Proofs.Flush.Ending

namespace StatsDaemon

open Flush Pipeline

namespace CrewRun

-- Every worker was asked to drain its queue, after everything else that it was asked.
def Asked (t : CrewRun) : Prop :=
  ∀ m ∈ t.pool.members, ∃ earlier, m.mailbox = earlier ++ [true]

structure Serving (t : CrewRun) (moves : List Move) (u : CrewRun) : Prop where
  phase : u.phase = t.phase
  replies : u.replies = t.replies
  settings : u.settings = t.settings
  workers : u.pool.members.length = t.pool.members.length
  served : ∀ (i : Nat) (m : Member) (given : List Given), t.pool.members[i]? = some m →
    t.outstanding[i]? = some (Flush.requests given m.mailbox.length) → ∃ m',
      u.pool.members[i]? = some m' ∧ m'.Follows (m.serve (answerTimes i moves)).1 ∧
      u.outstanding[i]? = some (Flush.requests (given ++ (m.serve (answerTimes i moves)).2)
        m'.mailbox.length)

namespace Serving

variable {t u : CrewRun} {moves : List Move}

theorem start (asked : Asked t) : Serving t [] t where
  phase := rfl
  replies := rfl
  settings := rfl
  workers := rfl
  served i m given at_i requests := by
    refine ⟨m, at_i, ⟨rfl, fun _ => rfl, fun idle => ?_⟩, by simpa [answerTimes, Member.serve]⟩
    obtain ⟨earlier, mailbox⟩ := asked m (List.mem_of_getElem? at_i)
    have idle : m.mailbox = [] := idle
    simp [mailbox] at idle

theorem other (s : Serving t moves u) (asked : Asked t) (move : Move)
    (other : move.isAct = false) (stopped : move.isDispatch = false) :
    Serving t (moves ++ [move]) (u.perform move) where
  phase := (alike_perform u move other).1.trans s.phase
  replies := (alike_perform u move other).2.1.trans s.replies
  settings := (settings_perform u move).trans s.settings
  workers := (alike_perform u move other).2.2.1.trans s.workers
  served i m given at_i requests := by
    obtain ⟨m', before, follows, outstanding⟩ := s.served i m given at_i requests
    obtain ⟨earlier, mailbox⟩ := asked m (List.mem_of_getElem? at_i)
    have split := m.serve_append (answerTimes i moves) (answerTimes i [move])
    have drained := Member.drained_serve mailbox (answerTimes i moves ++ answerTimes i [move])
    rw [split] at drained
    obtain ⟨follows, reports⟩ := Move.onMember_follows follows move i stopped drained
    obtain ⟨counts, -⟩ := move.onMember_given i 0 m'
    refine ⟨(move.onMember i m').1, ?_, ?_, ?_⟩
    · rw [getElem?_perform u move other, before, Option.map_some]
    · rwa [answerTimes_append, split]
    · rw [outstanding_perform u move other i m' before, outstanding, Option.map_some,
        settle_requests _ _ _ (by omega), answerTimes_append, split, ← reports, List.append_assoc,
        ← counts, Nat.add_sub_cancel_left]

end Serving

-- The last batch: every worker contributes what was late and its final snapshot, merged.
def Outcome (t : CrewRun) (moves : List Move) (batch : Batch Binary64) : Prop :=
  ∃ (endings : List Ending) (ended : Nat), endings.length = t.pool.members.length ∧
    (∀ (i : Nat) (e : Ending) (m : Member) (requests : List Promise), endings[i]? = some e →
      t.pool.members[i]? = some m → t.outstanding[i]? = some requests →
        e.Of m requests (answerTimes i moves)) ∧
    batch = .ofSnapshots (endings.map Ending.whole) t.settings.thresholds t.settings.interval
      (t.settings.timestamp ended)

theorem Outcome.append {t : CrewRun} {moves : List Move} {batch : Batch Binary64}
    (h : Outcome t moves batch) (more : List Move) : Outcome t (moves ++ more) batch := by
  obtain ⟨endings, ended, length, each, rfl⟩ := h
  refine ⟨endings, ended, length, fun i e m requests at_i member asked => ?_, rfl⟩
  rw [answerTimes_append]
  exact (each i e m requests at_i member asked).append _

-- The last cycle once it has its batch: there is nothing left.
structure Drained (t : CrewRun) (batch : Batch Binary64) (u : CrewRun) : Prop where
  phase : u.phase = .finishing batch
  replies : u.replies = t.replies
  requests : ∀ requests ∈ u.outstanding, requests = []
  members : ∀ m ∈ u.pool.members, m.mailbox = [] ∧ m.queue.items = []

theorem exists_list {β : Type} {P : Nat → β → Prop} (n : Nat) (h : ∀ i < n, ∃ b, P i b) :
    ∃ list : List β, list.length = n ∧ ∀ i b, list[i]? = some b → P i b := by
  choose b hb using h
  refine ⟨List.ofFn fun i : Fin n => b i i.isLt, List.length_ofFn, fun i x at_i => ?_⟩
  obtain ⟨lt, rfl⟩ := List.getElem?_eq_some_iff.mp at_i
  simpa using hb i (by simpa using lt)

theorem Serving.follows_of_mem {t u : CrewRun} {moves : List Move} {clock : Nat}
    (s : Serving t moves u) (linked : Linked clock t) {m : Member} (mem : m ∈ u.pool.members) :
    ∃ (i : Nat) (before : Member), t.pool.members[i]? = some before ∧
      m.Follows (before.serve (answerTimes i moves)).1 := by
  obtain ⟨i, lt, rfl⟩ := List.mem_iff_getElem.mp mem
  have at_i := List.getElem?_eq_getElem (s.workers ▸ lt)
  obtain ⟨given, requests, -⟩ := linked.answers i _ at_i
  obtain ⟨m, member, follows, -⟩ := s.served i _ given at_i requests
  obtain rfl := Option.some.inj ((List.getElem?_eq_getElem lt).symm.trans member)
  exact ⟨i, _, at_i, follows⟩

theorem Serving.contribution {t u : CrewRun} {moves : List Move} {before clock : Nat}
    (s : Serving t moves u) (asked : Asked t) (linked : Linked before t) (now : Linked clock u)
    (idle : ∀ m ∈ u.pool.members, m.mailbox = []) (i : Nat) (lt : i < t.pool.members.length) :
    ∃ e : Ending,
      (∀ m requests, t.pool.members[i]? = some m → t.outstanding[i]? = some requests →
        e.Of m requests (answerTimes i moves)) ∧
      ∃ identities,
        (Service.collected u clock)[i]? = some ⟨some ⟨e.whole, identities⟩, .complete, []⟩ := by
  have at_i := List.getElem?_eq_getElem lt
  obtain ⟨given, requests, -⟩ := linked.answers i _ at_i
  obtain ⟨m, member, follows, outstanding⟩ := s.served i _ given at_i requests
  obtain ⟨earlier, mailbox⟩ := asked _ (List.mem_of_getElem? at_i)
  have none : m.mailbox = [] := idle m (List.mem_of_getElem? member)
  have enough : t.pool.members[i].mailbox.length ≤ (answerTimes i moves).length := by
    rw [← List.drop_eq_nil_iff, ← Member.mailbox_serve, ← follows.mailbox, none]
  obtain ⟨e, of, snapshots⟩ := Ending.exists_of mailbox given (answerTimes i moves) enough
  refine ⟨e, fun m' requests' at_i' outstanding' => ?_, ?_⟩
  · obtain rfl := Option.some.inj (at_i.symm.trans at_i')
    obtain rfl := Option.some.inj (requests.symm.trans outstanding')
    exact of
  · generalize given ++ (t.pool.members[i].serve (answerTimes i moves)).2 = all at *
    obtain ⟨given', outstanding', seen⟩ := now.answers i m member
    obtain rfl : given' = all :=
      requests_injective (Option.some.inj (outstanding'.symm.trans outstanding))
    obtain ⟨whole, contributed⟩ : ∃ whole, contribution? (given'.map Given.report) = some whole := by
      cases given' with
      | nil => simp at snapshots
      | cons first rest => exact ⟨_, rfl⟩
    have merged : whole.snapshot = e.whole := by
      rw [snapshot_of_contribution _ whole contributed, List.map_map, Ending.whole, ← snapshots]
      rfl
    refine ⟨whole.identities, ?_⟩
    rw [Service.collected, List.getElem?_map, outstanding, Option.map_some,
      collect_seen clock given' _ .none seen, addReports_none, contributed, ← merged, none]
    rfl

theorem snapshots_collected {collected : List (Collected Binary64 Promise)} {endings : List Ending}
    (size : collected.length = endings.length)
    (each : ∀ (i : Nat) (e : Ending), endings[i]? = some e →
      ∃ identities, collected[i]? = some ⟨some ⟨e.whole, identities⟩, .complete, []⟩) :
    (collected.filterMap Collected.report).map Report.snapshot = endings.map Ending.whole := by
  have same : collected.map (fun c => c.report.map Report.snapshot) =
      endings.map fun e => some e.whole := by
    refine List.ext_getElem? fun i => ?_
    rcases at_i : endings[i]? with _ | e
    · have beyond := List.getElem?_eq_none_iff.mpr (size ▸ List.getElem?_eq_none_iff.mp at_i)
      simp [at_i, beyond]
    · obtain ⟨identities, found⟩ := each i e at_i
      simp [at_i, found]
  have reports := congrArg (List.filterMap id) same
  rw [List.map_filterMap]
  simpa [List.filterMap_map, Function.comp_def] using reports

theorem Serving.endCycle {t u : CrewRun} {moves : List Move} {before clock : Nat}
    (s : Serving t moves u) (asked : Asked t) (linked : Linked before t) (now : Linked clock u)
    (idle : ∀ m ∈ u.pool.members, m.mailbox = []) :
    ∃ batch, Outcome t moves batch ∧
      Drained t batch (u.endCycle (.message true) (u.collected clock) clock) := by
  obtain ⟨endings, length, each⟩ := exists_list t.pool.members.length fun i lt =>
    s.contribution asked linked now idle i lt
  have size : (Service.collected u clock).length = endings.length := by
    rw [Service.collected, List.length_map, now.sizes, s.workers, length]
  have contributed := snapshots_collected size fun i e at_i => (each i e at_i).2
  refine ⟨_, ⟨endings, clock, length, fun i e m requests at_i => (each i e at_i).1 m requests, rfl⟩,
    ⟨?_, s.replies, fun requests mem => ?_, fun m mem => ⟨idle m ?_, ?_⟩⟩⟩
  · rw [Service.phase_endCycle_last, batchOf, contributed, s.settings]
  · rw [Service.outstanding_endCycle] at mem
    obtain ⟨c, found, rfl⟩ := List.mem_map.mp mem
    obtain ⟨i, lt, rfl⟩ := List.mem_iff_getElem.mp found
    obtain ⟨-, identities, collected⟩ := each i _ (List.getElem?_eq_getElem (size ▸ lt))
    have same := Option.some.inj ((List.getElem?_eq_getElem lt).symm.trans collected)
    rw [same]
    rfl
  · exact mem
  · obtain ⟨i, before, -, follows⟩ := s.follows_of_mem linked mem
    exact follows.drained (follows.mailbox ▸ idle m mem)

theorem Serving.idle_of_enough {t u : CrewRun} {moves : List Move} {before : Nat}
    (s : Serving t moves u) (linked : Linked before t)
    (enough : ∀ (i : Nat) (m : Member), t.pool.members[i]? = some m →
      m.mailbox.length ≤ (answerTimes i moves).length) :
    ∀ m ∈ u.pool.members, m.mailbox = [] := by
  intro m mem
  obtain ⟨i, before, at_i, follows⟩ := s.follows_of_mem linked mem
  rw [follows.mailbox, Member.mailbox_serve]
  exact List.drop_eq_nil_iff.mpr (enough i before at_i)

theorem idle_of_not_late {u : CrewRun} {clock : Nat} (now : Linked clock u)
    (answered : ∀ c ∈ Service.collected u clock, c.status ≠ .late) :
    ∀ m ∈ u.pool.members, m.mailbox = [] := by
  intro m mem
  obtain ⟨i, lt, rfl⟩ := List.mem_iff_getElem.mp mem
  obtain ⟨given, requests, seen⟩ := now.answers i _ (List.getElem?_eq_getElem lt)
  have status := answered _ (List.mem_map_of_mem (List.mem_of_getElem? requests))
  rw [collect_seen clock given _ none seen] at status
  by_contra waits
  simp [List.length_eq_zero_iff, waits] at status

theorem Serving.waited {t u : CrewRun} {moves : List Move} (s : Serving t moves u) (now : Nat) :
    Serving t (moves ++ [.act now]) u :=
  { s with
    served := by simpa [answerTimes_append, answerTimes] using s.served }

-- Until the deadline is over the cycle goes on, unless all have answered before.
theorem Serving.act {t u v : CrewRun} {moves : List Move} {before now deadline : Nat}
    (s : Serving t moves u) (asked : Asked t) (linked : Linked before t) (later : Linked now u)
    (phase : t.phase = .collecting deadline (.message true))
    (punctual : deadline ≤ now → ∀ (i : Nat) (m : Member), t.pool.members[i]? = some m →
      m.mailbox.length ≤ (answerTimes i moves).length)
    (h : Service.Step now u v) :
    Serving t moves v ∨ ∃ batch, Outcome t moves batch ∧ Drained t batch v := by
  have collecting := s.phase.trans phase
  cases h with
  | complete p pending free taken => exact absurd collecting (free _ _)
  | message drain requests idle received => simp [collecting] at idle
  | tick idle due => simp [collecting] at idle
  | reply batch finishing ended => simp [collecting] at finishing
  | await =>
    refine .inl ⟨s.phase, s.replies, s.settings, s.workers, fun i m given at_i requests => ?_⟩
    obtain ⟨m', member, follows, outstanding⟩ := s.served i m given at_i requests
    exact ⟨m', member, follows, by simp [Service.await, outstanding, unfresh_requests]⟩
  | finish deadline' occasion collecting' expired =>
    obtain ⟨rfl, rfl⟩ : deadline = deadline' ∧ .message true = occasion := by
      simpa [collecting] using collecting'
    refine .inr (s.endCycle asked linked later ?_)
    rcases expired with passed | answered
    · exact s.idle_of_enough linked (punctual passed)
    · exact idle_of_not_late later answered

namespace Drained

variable {t u v : CrewRun} {batch : Batch Binary64} {clock : Nat}

theorem other (d : Drained t batch u) (linked : Linked clock u) (move : Move)
    (other : move.isAct = false) (stopped : move.isDispatch = false) :
    Drained t batch (u.perform move) := by
  obtain ⟨phase, replies, workers, requests⟩ := alike_perform u move other
  have member (i : Nat) (m : Member) (at_i : u.pool.members[i]? = some m) :
      (move.onMember i m).1.mailbox = [] ∧ (move.onMember i m).1.queue.items = [] := by
    obtain ⟨idle, empty⟩ := d.members m (List.mem_of_getElem? at_i)
    have same : m.Follows m := ⟨rfl, fun _ => rfl, fun _ => empty⟩
    have follows := (Move.onMember_follows same move i stopped
      (by simpa [Member.serve_of_empty idle] using fun _ => empty)).1
    rw [Member.serve_of_empty idle] at follows
    exact ⟨follows.mailbox.trans idle, follows.drained idle⟩
  refine ⟨phase.trans d.phase, replies.trans d.replies, fun rs mem => ?_, fun m mem => ?_⟩
  · obtain ⟨i, lt, rfl⟩ := List.mem_iff_getElem.mp mem
    have before : i < u.outstanding.length := requests ▸ lt
    have given := outstanding_perform u move other i _
      (List.getElem?_eq_getElem (linked.sizes ▸ before))
    rw [List.getElem?_eq_getElem before, d.requests _ (List.getElem_mem before),
      List.getElem?_eq_getElem lt] at given
    exact (Option.some.inj given).trans (settle_none _)
  · obtain ⟨i, lt, rfl⟩ := List.mem_iff_getElem.mp mem
    have at_i := List.getElem?_eq_getElem lt
    rw [getElem?_perform u move other] at at_i
    obtain ⟨m, before, same⟩ := Option.map_eq_some_iff.mp at_i
    exact same ▸ member i m before

theorem act {now : Nat} (d : Drained t batch u) (h : Service.Step now u v) :
    Drained t batch v ∨ v = { u with phase := .idle, replies := u.replies ++ [batch] } := by
  have finishing := d.phase
  cases h with
  | complete p pending free taken => exact .inl ⟨d.phase, d.replies, d.requests, d.members⟩
  | message drain requests idle received => simp [finishing] at idle
  | tick idle due => simp [finishing] at idle
  | reply batch' finishing' ended =>
    obtain rfl : batch = batch' := by simpa [finishing] using finishing'
    exact .inr rfl
  | await deadline occasion collecting => simp [finishing] at collecting
  | finish deadline occasion collecting => simp [finishing] at collecting

end Drained

-- All workers answer what they were asked before the deadline.
def Punctual (deadline : Nat) (t : CrewRun) (during : List Move) : Prop :=
  ∀ (i : Nat) (m : Member), t.pool.members[i]? = some m →
    m.mailbox.length ≤ ((answerTimes i during).filter (· < deadline)).length

instance decidablePunctual (deadline : Nat) (t : CrewRun) (during : List Move) :
    Decidable (Punctual deadline t during) :=
  decidable_of_iff (∀ p ∈ t.pool.members.zipIdx,
    p.1.mailbox.length ≤ ((answerTimes p.2 during).filter (· < deadline)).length)
    ⟨fun h i m at_i => h (m, i) (List.mem_zipIdx_iff_getElem?.mpr at_i),
      fun h p mem => h p.2 p.1 (List.mem_zipIdx_iff_getElem?.mp mem)⟩

theorem Punctual.enough {deadline clock now : Nat} {t : CrewRun} {done rest : List Move}
    (punctual : Punctual deadline t (done ++ .act now :: rest))
    (clocked : Clocked clock (done ++ .act now :: rest)) (passed : deadline ≤ now)
    (i : Nat) (m : Member) (at_i : t.pool.members[i]? = some m) :
    m.mailbox.length ≤ (answerTimes i done).length := by
  have later := clock_le_answerTimes ((clocked_append _ _ _).mp clocked).2.2 i
  have none : (answerTimes i (.act now :: rest)).filter (· < deadline) = [] := by
    refine List.filter_eq_nil_iff.mpr fun time mem => ?_
    have := later time mem
    simp only [Move.clock] at this
    simp
    omega
  have enough := punctual i m at_i
  rw [answerTimes_append, List.filter_append, none, List.append_nil] at enough
  exact enough.trans (List.length_filter_le _ _)

section

variable {t : CrewRun} {clock deadline : Nat} {during done rest : List Move} {move : Move}
  (linked : Linked clock t) (clocked : Clocked clock during)
  (stopped : ∀ move ∈ during, move.isDispatch = false) (cut : during = done ++ move :: rest)

include linked clocked stopped cut

theorem Serving.next (asked : Asked t) (phase : t.phase = .collecting deadline (.message true))
    (punctual : Punctual deadline t during) (s : Serving t done (t.run done)) :
    Serving t (done ++ [move]) (t.run (done ++ [move])) ∨
      ∃ batch, Outcome t (done ++ [move]) batch ∧ Drained t batch (t.run (done ++ [move])) := by
  subst cut
  have clocks := (clocked_append clock done (move :: rest)).mp clocked
  have linked' : Linked (clockAfter clock done) (t.run done) := linked.run done clocks.1
  have moved : t.run (done ++ [move]) = (t.run done).perform move := run_append t done [move]
  rw [moved]
  rcases move.act_or_other with ⟨now, rfl⟩ | other
  · rcases (t.run done).perform_act now with same | step
    · rw [same]
      exact .inl (s.waited now)
    · refine (s.waited now).act asked linked (linked'.mono clocks.2.1) phase ?_ step
      intro passed i m at_i
      exact (punctual.enough clocked passed i m at_i).trans (by simp [answerTimes_append])
  · exact .inl (s.other asked move other (stopped move (by simp)))

theorem Drained.next {batch : Batch Binary64} (d : Drained t batch (t.run done)) :
    Drained t batch (t.run (done ++ [move])) ∨
      t.run (done ++ [move]) =
        { t.run done with phase := .idle, replies := t.replies ++ [batch] } := by
  subst cut
  have clocks := (clocked_append clock done (move :: rest)).mp clocked
  have linked' : Linked (clockAfter clock done) (t.run done) := linked.run done clocks.1
  have moved : t.run (done ++ [move]) = (t.run done).perform move := run_append t done [move]
  rw [moved]
  rcases move.act_or_other with ⟨now, rfl⟩ | other
  · rcases (t.run done).perform_act now with same | step
    · rw [same]
      exact .inl d
    · exact (d.act step).imp_right fun replied => d.replies ▸ replied
  · exact .inl (d.other linked' move other (stopped move (by simp)))

end

end CrewRun

end StatsDaemon
