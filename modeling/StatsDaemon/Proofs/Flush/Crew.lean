import Mathlib
import StatsDaemon.Proofs.Flush.Replies
import StatsDaemon.Proofs.Flush.Steps

namespace StatsDaemon

open Flush Pipeline

-- A worker with its queue, and the messages that wait: for each, whether the queue is drained.
structure Member where
  worker : Worker Binary64
  queue : Queue (Share Binary64)
  mailbox : List Bool := []

structure Given where
  report : Report Binary64
  time : Nat

namespace Member

def start (c : Config.Aggregation) (now : Nat) : Member :=
  { worker := .start c now, queue := .ofCapacity c.queueSize }

def ask (m : Member) (drain : Bool) : Member :=
  { m with mailbox := m.mailbox ++ [drain] }

def answer (m : Member) (now : Nat) : Member × List Given :=
  match m.mailbox with
  | [] => (m, [])
  | drain :: mailbox =>
    let (worker, queue, report, _) := m.worker.handleFlush m.queue drain now
    ({ worker, queue, mailbox }, [⟨report, now⟩])

def serve (m : Member) : List Nat → Member × List Given
  | [] => (m, [])
  | now :: times =>
    let (m, given) := m.answer now
    let (m, more) := m.serve times
    (m, given ++ more)

-- Folds the first share of the queue in, if no message waits.
def fold (m : Member) (now : Nat) : Member :=
  match m.mailbox, m.queue.items with
  | [], share :: rest =>
    { m with
      worker := (m.worker.handleShare share now).1
      queue := { m.queue with items := rest } }
  | _, _ => m

def startScan (m : Member) (now : Nat) : Member :=
  if m.mailbox.isEmpty then { m with worker := m.worker.startScan now } else m

def expire (m : Member) (now : Nat) : Member :=
  if m.mailbox.isEmpty then { m with worker := (m.worker.expireStep now).1 } else m

def put (m : Member) (share : Share Binary64) : Member :=
  { m with queue := (Dispatcher.enqueue m.queue share).1 }

@[simp] theorem mailbox_fold (m : Member) (now : Nat) : (m.fold now).mailbox = m.mailbox := by
  unfold fold
  split <;> simp_all

@[simp] theorem mailbox_startScan (m : Member) (now : Nat) :
    (m.startScan now).mailbox = m.mailbox := by
  unfold startScan
  split <;> rfl

@[simp] theorem mailbox_expire (m : Member) (now : Nat) : (m.expire now).mailbox = m.mailbox := by
  unfold expire
  split <;> rfl

@[simp] theorem mailbox_put (m : Member) (share : Share Binary64) :
    (m.put share).mailbox = m.mailbox :=
  rfl

theorem answer_given (m : Member) (now : Nat) :
    (m.answer now).2.length + (m.answer now).1.mailbox.length = m.mailbox.length ∧
      ∀ g ∈ (m.answer now).2, g.time = now := by
  unfold answer
  split <;> simp_all [Nat.add_comm]

end Member

structure Crew where
  members : List Member

-- The requests to a worker that has given some reports and has to give some more.
def Flush.requests (given : List Given) (waiting : Nat) : List Promise :=
  given.map (fun g => ⟨.given g.report, some g.time, false⟩) ++
    List.replicate waiting ⟨.awaited, none, false⟩

def Flush.settle : List Given → List Promise → List Promise
  | [], requests => requests
  | _, [] => []
  | g :: given, p :: rest =>
    match p.arrival with
    | some _ => p :: settle (g :: given) rest
    | none => ⟨.given g.report, some g.time, false⟩ :: settle given rest

instance : Pool Crew where
  ask c drain _ :=
    (⟨c.members.map (·.ask drain)⟩, c.members.map fun _ => ⟨.awaited, none, false⟩, [])
  takeCounts c := (c, {})
  depths c := c.members.map (·.queue.depth)

abbrev CrewRun := Service Crew

namespace CrewRun

def start (settings : Settings) (c : Config.Aggregation) (backends : List Backend) (now : Nat) :
    CrewRun :=
  Service.start settings ⟨List.replicate c.workers (.start c now)⟩ c.workers backends now

inductive Move where
  | act (now : Nat)
  -- Somebody asks for a flush, the last one or not.
  | send (drain : Bool)
  | report (number : Nat) (failure : Option String) (now : Nat)
  | answer (worker now : Nat)
  | fold (worker now : Nat)
  | startScan (worker now : Nat)
  | expire (worker now : Nat)
  | dispatch (worker : Nat) (share : Share Binary64)

def change (s : CrewRun) (worker : Nat) (f : Member → Member) : CrewRun :=
  { s with pool := ⟨s.pool.members.modify worker f⟩ }

def answer (s : CrewRun) (worker now : Nat) : CrewRun :=
  match s.pool.members[worker]? with
  | none => s
  | some member =>
    let (member, given) := member.answer now
    { s with
      pool := ⟨s.pool.members.set worker member⟩
      outstanding := s.outstanding.modify worker (settle given) }

def perform (s : CrewRun) : Move → CrewRun
  | .act now => (s.step? now).getD s
  | .send drain => { s with requests := s.requests.send drain }
  | .report number failure now => s.report number failure now
  | .answer worker now => s.answer worker now
  | .fold worker now => s.change worker (·.fold now)
  | .startScan worker now => s.change worker (·.startScan now)
  | .expire worker now => s.change worker (·.expire now)
  | .dispatch worker share => s.change worker (·.put share)

def run (s : CrewRun) (moves : List Move) : CrewRun :=
  moves.foldl perform s

theorem run_append (s : CrewRun) (first second : List Move) :
    s.run (first ++ second) = (s.run first).run second :=
  List.foldl_append

def Move.clock (before : Nat) : Move → Nat
  | .act now | .report _ _ now | .answer _ now | .fold _ now | .startScan _ now
  | .expire _ now => now
  | .send _ | .dispatch _ _ => before

def Clocked : Nat → List Move → Prop
  | _, [] => True
  | before, move :: rest => before ≤ move.clock before ∧ Clocked (move.clock before) rest

instance decidableClocked : (before : Nat) → (moves : List Move) → Decidable (Clocked before moves)
  | _, [] => isTrue trivial
  | before, move :: rest =>
    @instDecidableAnd _ _ (Nat.decLe ..) (decidableClocked (move.clock before) rest)

def clockAfter (before : Nat) (moves : List Move) : Nat :=
  moves.foldl Move.clock before

theorem clocked_append (before : Nat) (first second : List Move) :
    Clocked before (first ++ second) ↔
      Clocked before first ∧ Clocked (clockAfter before first) second := by
  induction first generalizing before with
  | nil => simp [Clocked, clockAfter]
  | cons move rest ih => simp only [List.cons_append, Clocked, ih, and_assoc]; rfl

def answerTimes (worker : Nat) (moves : List Move) : List Nat :=
  moves.filterMap fun
    | .answer other now => if other = worker then some now else none
    | _ => none

theorem answerTimes_append (worker : Nat) (first second : List Move) :
    answerTimes worker (first ++ second) = answerTimes worker first ++ answerTimes worker second :=
  List.filterMap_append

theorem clock_le_answerTimes {before : Nat} {moves : List Move} (h : Clocked before moves)
    (worker : Nat) : ∀ time ∈ answerTimes worker moves, before ≤ time := by
  induction moves generalizing before with
  | nil => simp [answerTimes]
  | cons move rest ih =>
    obtain ⟨le, later⟩ := h
    intro time mem
    rw [← List.singleton_append, answerTimes_append, List.mem_append] at mem
    rcases mem with now | mem
    · cases move with
      | answer other now' =>
        obtain ⟨-, rfl⟩ : other = worker ∧ now' = time := by simpa [answerTimes] using now
        exact le
      | _ => simp [answerTimes] at now
    · exact le.trans (ih later time mem)

def Move.onMember (worker : Nat) (m : Member) : Move → Member × List Given
  | .answer other now => if other = worker then m.answer now else (m, [])
  | .fold other now => (if other = worker then m.fold now else m, [])
  | .startScan other now => (if other = worker then m.startScan now else m, [])
  | .expire other now => (if other = worker then m.expire now else m, [])
  | .dispatch other share => (if other = worker then m.put share else m, [])
  | .act _ | .send _ | .report _ _ _ => (m, [])

def Move.isAct : Move → Bool
  | .act _ => true
  | _ => false

def Move.isDispatch : Move → Bool
  | .dispatch _ _ => true
  | _ => false

theorem Move.act_or_other (move : Move) : (∃ now, move = .act now) ∨ move.isAct = false := by
  cases move with
  | act now => exact .inl ⟨now, rfl⟩
  | _ => exact .inr rfl

@[simp] theorem settle_nil : Flush.settle [] = id := by
  funext requests
  cases requests <;> rfl

theorem settle_none (given : List Given) : Flush.settle given [] = [] := by
  cases given <;> rfl

theorem getElem?_perform (s : CrewRun) (move : Move) (other : move.isAct = false) (i : Nat) :
    (s.perform move).pool.members[i]? =
      s.pool.members[i]?.map fun m => (move.onMember i m).1 := by
  cases move with
  | act now => simp [Move.isAct] at other
  | send drain => simp [perform, Move.onMember]
  | report number failure now => simp [perform, Move.onMember, Service.report]
  | answer worker now =>
    simp only [perform, answer, Move.onMember]
    split
    case h_1 none =>
      by_cases same : worker = i
      · simp [← same, none]
      · simp [same]
    case h_2 m at_worker =>
      by_cases same : worker = i
      · subst same
        obtain ⟨lt, rfl⟩ := List.getElem?_eq_some_iff.mp at_worker
        simp [lt]
      · simp [same, List.getElem?_set_ne same]
  | fold worker now | startScan worker now | expire worker now | dispatch worker share =>
    simp only [perform, change, Move.onMember, List.getElem?_modify]
    split <;> simp

theorem perform_act (s : CrewRun) (now : Nat) :
    s.perform (.act now) = s ∨ Service.Step now s (s.perform (.act now)) := by
  cases stepped : s.step? now with
  | none => exact .inl (by simp [perform, stepped])
  | some t => exact .inr (by simpa [perform, stepped] using Service.step_of_step? stepped)

theorem settings_perform (s : CrewRun) (move : Move) : (s.perform move).settings = s.settings := by
  cases move with
  | act now =>
    rcases s.perform_act now with same | step
    · rw [same]
    · exact step.settings
  | answer worker now =>
    simp only [perform, answer]
    split <;> rfl
  | _ => rfl

theorem alike_perform (s : CrewRun) (move : Move) (other : move.isAct = false) :
    (s.perform move).phase = s.phase ∧ (s.perform move).replies = s.replies ∧
      (s.perform move).pool.members.length = s.pool.members.length ∧
      (s.perform move).outstanding.length = s.outstanding.length := by
  cases move with
  | act now => simp [Move.isAct] at other
  | answer worker now =>
    simp only [perform, answer]
    split <;> simp
  | _ => simp [perform, Service.report, change]

theorem deadline_perform (s : CrewRun) (move : Move) (other : move.isAct = false) :
    ∀ p ∈ (s.perform move).pending, ∃ q ∈ s.pending, p.deadline = q.deadline := by
  cases move with
  | act now => simp [Move.isAct] at other
  | report number failure now =>
    intro p hp
    obtain ⟨q, mem, rfl⟩ := List.mem_map.mp hp
    refine ⟨q, mem, ?_⟩
    split <;> rfl
  | answer worker now =>
    simp only [perform, answer]
    split <;> exact fun p hp => ⟨p, hp, rfl⟩
  | _ => exact fun p hp => ⟨p, hp, rfl⟩

theorem outstanding_perform (s : CrewRun) (move : Move) (other : move.isAct = false) (i : Nat)
    (m : Member) (at_i : s.pool.members[i]? = some m) :
    (s.perform move).outstanding[i]? =
      s.outstanding[i]?.map (Flush.settle (move.onMember i m).2) := by
  cases move with
  | act now => simp [Move.isAct] at other
  | answer worker now =>
    simp only [perform, answer, Move.onMember]
    split
    case h_1 none =>
      have ne : worker ≠ i := by
        rintro rfl
        simp [none] at at_i
      simp [ne]
    case h_2 m' at_worker =>
      by_cases same : worker = i
      · subst same
        obtain rfl : m' = m := by simpa [at_worker] using at_i
        simp
      · simp [same]
  | _ => simp [perform, Move.onMember, Service.report, change]

theorem Move.onMember_given (move : Move) (i clock : Nat) (m : Member) :
    (move.onMember i m).2.length + (move.onMember i m).1.mailbox.length = m.mailbox.length ∧
      ∀ g ∈ (move.onMember i m).2, g.time = move.clock clock := by
  cases move with
  | answer worker now =>
    simp only [Move.onMember]
    split
    · exact m.answer_given now
    · simp
  | _ => simp [Move.onMember, apply_ite]

end CrewRun

namespace Flush

theorem settle_requests (more given : List Given) (waiting : Nat) (h : more.length ≤ waiting) :
    settle more (requests given waiting) = requests (given ++ more) (waiting - more.length) := by
  induction given with
  | nil =>
    induction more generalizing waiting with
    | nil => simp
    | cons g more ih =>
      obtain ⟨rest, rfl⟩ : ∃ rest, waiting = rest + 1 :=
        ⟨waiting - 1, by simp only [List.length_cons] at h; omega⟩
      have rest := ih rest (by simpa using h)
      simpa [requests, List.replicate_succ, settle] using rest
  | cons g given ih =>
    cases more with
    | nil => simp [CrewRun.settle_nil]
    | cons first more => simpa [requests, settle] using ih

theorem requests_ask (given : List Given) (waiting : Nat) :
    requests given waiting ++ [⟨.awaited, none, false⟩] = requests given (waiting + 1) := by
  simp [requests, List.replicate_succ']

theorem requests_injective {given other : List Given} {waiting : Nat}
    (h : requests given waiting = requests other waiting) : given = other := by
  refine List.map_injective_iff.mpr ?_ (List.append_cancel_right h)
  rintro ⟨report, time⟩ ⟨report', time'⟩ same
  simpa using same

theorem unfresh_requests (given : List Given) (waiting : Nat) :
    ((requests given waiting).map fun p => { p with fresh := false }) = requests given waiting := by
  simp [requests]

-- All reports are collected, and the requests that wait for one are kept.
theorem collect_seen (now : Nat) (given : List Given) (waiting : Nat)
    (report : Option (Report Binary64)) (seen : ∀ g ∈ given, g.time ≤ now) :
    collect (Promise.seen now) report (requests given waiting) =
      ⟨addReports report (given.map Given.report), if waiting = 0 then .complete else .late,
        requests [] waiting⟩ := by
  induction given generalizing report with
  | nil =>
    cases waiting with
    | zero => rfl
    | succ n => simp [requests, List.replicate_succ, collect, Promise.seen, addReports]
  | cons g given ih =>
    have first : g.time ≤ now := seen g List.mem_cons_self
    have rest := ih (some (addReport report g.report)) fun g hg => seen g (List.mem_cons_of_mem _ hg)
    have given_ : Promise.seen now ⟨.given g.report, some g.time, false⟩ = .given g.report := by
      simp [Promise.seen, first]
    rw [requests, List.map_cons, List.cons_append, collect, given_]
    exact rest

end Flush

namespace CrewRun

-- A worker has given the reports that the requests to it have, and the rest of these are the
-- messages that wait. No report and no submission is from later than the clock shows.
structure Linked (clock : Nat) (s : CrewRun) : Prop where
  sizes : s.outstanding.length = s.pool.members.length
  answers : ∀ (i : Nat) (m : Member), s.pool.members[i]? = some m → ∃ given,
    s.outstanding[i]? = some (Flush.requests given m.mailbox.length) ∧
      ∀ g ∈ given, g.time ≤ clock
  pending : ∀ p ∈ s.pending, p.deadline ≤ clock + s.settings.backendTimeout

namespace Linked

variable {clock : Nat} {s : CrewRun}

theorem start (settings : Settings) (c : Config.Aggregation) (backends : List Backend)
    (now : Nat) : Linked now (start settings c backends now) where
  sizes := by simp [CrewRun.start, Service.start]
  answers i m at_i := by
    obtain ⟨lt, rfl⟩ : i < c.workers ∧ Member.start c now = m := by
      simpa [CrewRun.start, Service.start, List.getElem?_replicate] using at_i
    exact ⟨[], by simp [CrewRun.start, Service.start, Member.start, Flush.requests, lt], by simp⟩
  pending := by simp [CrewRun.start, Service.start]

theorem mono (k : Linked clock s) {later : Nat} (le : clock ≤ later) : Linked later s where
  sizes := k.sizes
  answers i m at_i := by
    obtain ⟨given, requests, times⟩ := k.answers i m at_i
    exact ⟨given, requests, fun g hg => (times g hg).trans le⟩
  pending p hp := (k.pending p hp).trans (Nat.add_le_add_right le _)

theorem other (k : Linked clock s) (move : Move) (other : move.isAct = false)
    (le : clock ≤ move.clock clock) : Linked (move.clock clock) (s.perform move) where
  sizes := by
    obtain ⟨-, -, members, outstanding⟩ := alike_perform s move other
    rw [members, outstanding, k.sizes]
  answers i m' at_i := by
    rw [getElem?_perform s move other] at at_i
    obtain ⟨m, before, rfl⟩ := Option.map_eq_some_iff.mp at_i
    obtain ⟨given, requests, times⟩ := k.answers i m before
    obtain ⟨counts, fresh⟩ := move.onMember_given i clock m
    refine ⟨given ++ (move.onMember i m).2, ?_, fun g hg => ?_⟩
    · rw [outstanding_perform s move other i m before, requests, Option.map_some,
        settle_requests _ _ _ (by omega), ← counts, Nat.add_sub_cancel_left]
    · obtain old | new := List.mem_append.mp hg
      · exact (times g old).trans le
      · exact (fresh g new).le
  pending p hp := by
    rw [settings_perform]
    obtain ⟨q, before, same⟩ := deadline_perform s move other p hp
    have := k.pending q before
    omega

theorem beginCycle (k : Linked clock s) (occasion : Occasion) (now : Nat) :
    Linked clock (s.beginCycle occasion now) where
  sizes := by simp [Service.beginCycle, Service.tell, Pool.ask, k.sizes]
  answers i m' at_i := by
    have at_i : (s.pool.members[i]?.map (·.ask occasion.drains)) = some m' := by
      simpa [Service.beginCycle, Service.tell, Pool.ask] using at_i
    obtain ⟨m, before, rfl⟩ := Option.map_eq_some_iff.mp at_i
    obtain ⟨given, requests, times⟩ := k.answers i m before
    have lt := (List.getElem?_eq_some_iff.mp before).1
    refine ⟨given, ?_, times⟩
    simp [Service.beginCycle, Service.tell, Pool.ask, List.getElem?_zipWith, requests, lt,
      requests_ask, Member.ask]
  pending := k.pending

theorem endCycle (k : Linked clock s) (occasion : Occasion) :
    Linked clock (s.endCycle occasion (s.collected clock) clock) where
  sizes := by simp [Service.collected, k.sizes, Pool.takeCounts]
  answers i m at_i := by
    have before : s.pool.members[i]? = some m := by
      simpa [Pool.takeCounts] using at_i
    obtain ⟨given, requests, times⟩ := k.answers i m before
    refine ⟨[], ?_, by simp⟩
    simp [Service.collected, requests, collect_seen clock given _ none times, unfresh_requests]
  pending p hp := by
    rw [Service.settings_endCycle]
    rw [Service.pending_endCycle, List.mem_append] at hp
    rcases hp with old | new
    · exact k.pending p old
    · obtain ⟨i, lt, rfl⟩ := List.mem_mapIdx.mp new
      exact le_rfl

theorem step {t : CrewRun} (k : Linked clock s) (h : Service.Step clock s t) : Linked clock t := by
  cases h with
  | complete p pending free taken =>
    exact ⟨k.sizes, k.answers, fun q hq => k.pending q (Due.mem_of_take taken hq)⟩
  | message drain requests idle received =>
    exact beginCycle (s := { s with requests }) ⟨k.sizes, k.answers, k.pending⟩ _ _
  | tick idle due =>
    exact beginCycle (s := { s with ticker := s.ticker.skip clock })
      ⟨k.sizes, k.answers, k.pending⟩ _ _
  | finish deadline occasion collecting expired => exact k.endCycle occasion
  | await deadline occasion collecting =>
    refine ⟨by simpa [Service.await] using k.sizes, fun i m at_i => ?_, k.pending⟩
    obtain ⟨given, requests, times⟩ := k.answers i m at_i
    exact ⟨given, by simp [Service.await, requests, unfresh_requests], times⟩
  | reply batch finishing ended => exact ⟨k.sizes, k.answers, k.pending⟩

theorem perform (k : Linked clock s) (move : Move) (le : clock ≤ move.clock clock) :
    Linked (move.clock clock) (s.perform move) := by
  rcases move.act_or_other with ⟨now, rfl⟩ | other
  · have later : Linked now s := k.mono le
    rcases s.perform_act now with same | step
    · rw [same]
      exact later
    · exact later.step step
  · exact k.other move other le

theorem run (k : Linked clock s) (moves : List Move) (clocked : Clocked clock moves) :
    Linked (clockAfter clock moves) (s.run moves) := by
  induction moves generalizing clock s with
  | nil => exact k
  | cons move rest ih => exact ih (k.perform move clocked.1) clocked.2

end Linked

end CrewRun

end StatsDaemon
