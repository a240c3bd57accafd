import StatsDaemon.Proofs.Flush.Crew

namespace StatsDaemon

open Flush Pipeline

namespace Member

theorem serve_append (m : Member) (first second : List Nat) :
    m.serve (first ++ second) =
      (((m.serve first).1.serve second).1,
        (m.serve first).2 ++ ((m.serve first).1.serve second).2) := by
  induction first generalizing m with
  | nil => rfl
  | cons now first ih => simp [serve, ih]

theorem mailbox_answer (m : Member) (now : Nat) : (m.answer now).1.mailbox = m.mailbox.tail := by
  unfold answer
  split <;> simp_all

theorem mailbox_serve (m : Member) (times : List Nat) :
    (m.serve times).1.mailbox = m.mailbox.drop times.length := by
  induction times generalizing m with
  | nil => rfl
  | cons now times ih => simp [serve, ih, mailbox_answer]

theorem answer_of_empty {m : Member} (h : m.mailbox = []) (now : Nat) :
    m.answer now = (m, []) := by
  unfold answer
  simp [h]

theorem serve_of_empty {m : Member} (h : m.mailbox = []) (times : List Nat) :
    m.serve times = (m, []) := by
  induction times with
  | nil => rfl
  | cons now times ih => simp [serve, answer_of_empty h, ih]

theorem answer_last {m : Member} (h : m.mailbox = [true]) (now : Nat) :
    ((m.answer now).1.mailbox = [] ∧ (m.answer now).1.queue.items = []) ∧
      (m.answer now).2.map (·.report.snapshot) =
        [((m.worker.handleShares m.queue.items now).1.shard.snapshot now).2] := by
  simp [answer, h, Worker.handleFlush, Queue.drain]

theorem drained_serve {m : Member} {earlier : List Bool} (h : m.mailbox = earlier ++ [true])
    (times : List Nat) (answered : (m.serve times).1.mailbox = []) :
    (m.serve times).1.queue.items = [] := by
  induction times generalizing m earlier with
  | nil =>
    rw [serve, h] at answered
    exact absurd answered (by simp)
  | cons now times ih =>
    cases earlier with
    | nil =>
      obtain ⟨⟨mailbox, queue⟩, -⟩ := answer_last (by simpa using h) now
      simpa [serve, serve_of_empty mailbox] using queue
    | cons drain earlier =>
      have rest : (m.answer now).1.mailbox = earlier ++ [true] := by simp [mailbox_answer, h]
      exact ih rest answered

end Member

-- The snapshots that go into the last batch: those that were given late, and the final one.
structure Ending where
  late : List (Snapshot Binary64)
  final : Snapshot Binary64

namespace Ending

def whole (e : Ending) : Snapshot Binary64 :=
  .mergeAll (e.late ++ [e.final])

def reported (requests : List Promise) : List (Snapshot Binary64) :=
  requests.filterMap fun p =>
    match p.answer with
    | .given report => some report.snapshot
    | _ => none

-- What a worker contributes that answers its messages at some times, the last of which drains. The
-- late snapshots are those that were not collected and those of the messages before the last. The
-- final one is taken after all that is queued then was folded in, in the order of the queue.
def Of (e : Ending) (m : Member) (requests : List Promise) (times : List Nat) : Prop :=
  ∃ earlier served now rest, m.mailbox = earlier ++ [true] ∧ times = served ++ now :: rest ∧
    served.length = earlier.length ∧
    e.late = reported requests ++ (m.serve served).2.map (·.report.snapshot) ∧
    let last := (m.serve served).1
    e.final = ((last.worker.handleShares last.queue.items now).1.shard.snapshot now).2

theorem reported_requests (given : List Given) (waiting : Nat) :
    reported (Flush.requests given waiting) = given.map (·.report.snapshot) := by
  simp [reported, Flush.requests, List.filterMap_eq_map']

-- A worker that has answered all messages has contributed what was late and the final snapshot.
theorem exists_of {m : Member} {earlier : List Bool} (h : m.mailbox = earlier ++ [true])
    (given : List Given) (times : List Nat) (enough : m.mailbox.length ≤ times.length) :
    ∃ e : Ending, e.Of m (Flush.requests given m.mailbox.length) times ∧
      (given ++ (m.serve times).2).map (·.report.snapshot) = e.late ++ [e.final] := by
  have more : earlier.length < times.length := by
    rw [h, List.length_append, List.length_singleton] at enough
    omega
  -- The last message is answered at the first time that is left after the earlier ones.
  obtain ⟨now, rest, cut⟩ : ∃ now rest, times.drop earlier.length = now :: rest :=
    ⟨_, _, List.drop_eq_getElem_cons more⟩
  have split : times = times.take earlier.length ++ now :: rest := by
    rw [← cut, List.take_append_drop]
  have served : (times.take earlier.length).length = earlier.length := by
    rw [List.length_take]
    omega
  have last : (m.serve (times.take earlier.length)).1.mailbox = [true] := by
    rw [Member.mailbox_serve, served, h, List.drop_left]
  obtain ⟨⟨empty, -⟩, final⟩ := Member.answer_last last now
  refine ⟨⟨given.map (·.report.snapshot) ++
      (m.serve (times.take earlier.length)).2.map (·.report.snapshot), _⟩,
    ⟨earlier, times.take earlier.length, now, rest, h, split, served, ?_, rfl⟩, ?_⟩
  · rw [reported_requests]
  · conv_lhs => rw [split, Member.serve_append]
    simp only [Member.serve, Member.serve_of_empty empty, List.append_nil, List.map_append, final,
      List.append_assoc]

theorem Of.append {e : Ending} {m : Member} {requests : List Promise} {times : List Nat}
    (h : e.Of m requests times) (more : List Nat) : e.Of m requests (times ++ more) := by
  obtain ⟨earlier, served, now, rest, mailbox, split, length, late, final⟩ := h
  exact ⟨earlier, served, now, rest ++ more, mailbox, by simp [split], length, late, final⟩

end Ending

-- A worker as it is after its messages, but for scans that it has made since the last of them.
structure Member.Follows (m served : Member) : Prop where
  mailbox : m.mailbox = served.mailbox
  busy : served.mailbox ≠ [] → m = served
  drained : served.mailbox = [] → m.queue.items = []

namespace Member.Follows

variable {m served : Member}

-- What a worker does only when no message waits, and that puts nothing into its queue.
theorem quiet {next : Member} (f : m.Follows served) (mailbox : next.mailbox = m.mailbox)
    (busy : m.mailbox ≠ [] → next = m) (empty : m.queue.items = [] → next.queue.items = []) :
    next.Follows served where
  mailbox := mailbox.trans f.mailbox
  busy waits := (busy (f.mailbox ▸ waits)).trans (f.busy waits)
  drained idle := empty (f.drained idle)

theorem fold (f : m.Follows served) (now : Nat) : (m.fold now).Follows served := by
  refine f.quiet (m.mailbox_fold now) (fun busy => ?_) fun empty => ?_
  · unfold Member.fold
    split
    case h_1 idle _ => exact absurd idle busy
    case h_2 => rfl
  · unfold Member.fold
    split
    case h_1 full => simp [empty] at full
    case h_2 => exact empty

theorem startScan (f : m.Follows served) (now : Nat) : (m.startScan now).Follows served := by
  refine f.quiet (m.mailbox_startScan now) (fun busy => ?_) fun empty => ?_
  · simp [Member.startScan, busy]
  · unfold Member.startScan
    split <;> exact empty

theorem expire (f : m.Follows served) (now : Nat) : (m.expire now).Follows served := by
  refine f.quiet (m.mailbox_expire now) (fun busy => ?_) fun empty => ?_
  · simp [Member.expire, busy]
  · unfold Member.expire
    split <;> exact empty

end Member.Follows

namespace CrewRun

theorem Move.onMember_follows {m served : Member} (f : m.Follows served) (move : Move) (i : Nat)
    (stopped : move.isDispatch = false)
    (drained : (served.serve (answerTimes i [move])).1.mailbox = [] →
      (served.serve (answerTimes i [move])).1.queue.items = []) :
    (move.onMember i m).1.Follows (served.serve (answerTimes i [move])).1 ∧
      (move.onMember i m).2 = (served.serve (answerTimes i [move])).2 := by
  cases move with
  | answer worker now =>
    by_cases mine : worker = i
    · have times : answerTimes i [.answer worker now] = [now] := by simp [answerTimes, mine]
      simp only [times, Member.serve, List.append_nil] at drained ⊢
      by_cases idle : served.mailbox = []
      · have idle' : m.mailbox = [] := f.mailbox.trans idle
        simpa [Move.onMember, mine, Member.answer_of_empty, idle, idle'] using f
      -- While a message waits it has made no scan, so it is just the worker that answered.
      · obtain rfl := f.busy idle
        simp only [Move.onMember, mine, if_true, and_true]
        exact ⟨rfl, fun _ => rfl, drained⟩
    · simpa [answerTimes, mine, Member.serve, Move.onMember] using f
  | dispatch worker share => simp [Move.isDispatch] at stopped
  | fold worker now =>
    refine ⟨?_, rfl⟩
    simp only [Move.onMember]
    split
    · exact f.fold now
    · exact f
  | startScan worker now =>
    refine ⟨?_, rfl⟩
    simp only [Move.onMember]
    split
    · exact f.startScan now
    · exact f
  | expire worker now =>
    refine ⟨?_, rfl⟩
    simp only [Move.onMember]
    split
    · exact f.expire now
    · exact f
  | act | send | report => exact ⟨f, rfl⟩

end CrewRun

end StatsDaemon
