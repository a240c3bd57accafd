import Mathlib
import StatsDaemon.Proofs.Pipeline.Settling

namespace StatsDaemon.Pipeline

-- What the counts say: a counter, or how many malformed lines have labels of some sort.
inductive Figure where
  | counter (counter : Counter)
  | badLines (sort : String → Bool)

namespace Counts

def figure (c : Counts) : Figure → Nat
  | .counter counter => c.get counter
  | .badLines sort => total (c.badLines.filter fun e => sort e.1)

theorem total_append (a b : List (String × Nat)) : total (a ++ b) = total a + total b := by
  induction a with
  | nil => simp [total]
  | cons first rest ih => simp only [List.cons_append, total, ih, Nat.add_assoc]

theorem total_filter_increment (label : String) (sort : String → Bool)
    (counts : List (String × Nat)) :
    total ((increment label counts).filter fun e => sort e.1) =
      total (counts.filter fun e => sort e.1) + if sort label then 1 else 0 := by
  induction counts with
  | nil => cases known : sort label <;> simp [increment, total, known]
  | cons first rest ih =>
    obtain ⟨other, n⟩ := first
    unfold increment
    split
    case isTrue =>
      cases known : sort label
      · simp [known]
      · simp only [List.filter_cons, known, if_true, total]
        omega
    case isFalse =>
      split
      case isTrue same =>
        subst same
        cases known : sort label
        · simp [known]
        · simp only [List.filter_cons, known, if_true, total]
          omega
      case isFalse =>
        cases known : sort other
        · simp [known, ih]
        · simp only [List.filter_cons, known, if_true, total, ih]
          omega

theorem figure_empty (f : Figure) : ({} : Counts).figure f = 0 := by
  cases f with
  | counter counter => cases counter <;> rfl
  | badLines sort => rfl

theorem figure_all (c : Counts) : c.figure (.badLines fun _ => true) = c.totalBadLines := by
  simp [figure, totalBadLines]

theorem figure_add (c d : Counts) (counter : Counter) (amount : Nat) (f : Figure) :
    (c.add counter amount).figure f + d.figure f = c.figure f + (d.add counter amount).figure f := by
  cases f with
  | counter other =>
    simp only [figure, add, get_set]
    split
    case isTrue same => subst same; omega
    case isFalse => rfl
  | badLines sort => simp [figure, add]

theorem figure_addBadLine (c d : Counts) (label : String) (f : Figure) :
    (c.addBadLine label).figure f + d.figure f = c.figure f + (d.addBadLine label).figure f := by
  cases f with
  | counter other => cases other <;> rfl
  | badLines sort =>
    simp only [figure, addBadLine, total_filter_increment]
    omega

end Counts

theorem Program.figure_step (now : Nat) (p : Program) (s : Commons) (d : Deeds) (f : Figure) :
    (step now (p, s)).2.intake.counts.figure f + d.counts.figure f =
      s.intake.counts.figure f + (p.deed s d).counts.figure f := by
  cases p with
  | count counter amount next => exact Counts.figure_add ..
  | countFault fault next => exact Counts.figure_addBadLine ..
  | done | log _ _ | turn _ => rfl
  | logFault fault next => simp only [step, Commons.counts_logFault, deed]
  | lookUp source tags next => simp only [step, Commons.counts_lookUp, deed]
  | offer worker share next =>
    simp only [step, Commons.counts_offer, deed]
    split <;> rfl

theorem Program.workers_step (now : Nat) (p : Program) (s : Commons) :
    (step now (p, s)).2.intake.delivery.dispatcher.workers =
      s.intake.delivery.dispatcher.workers := by
  cases p with
  | logFault fault next =>
    simp only [step, Commons.logFault]
    split <;> rfl
  | lookUp source tags next =>
    simp only [step, Commons.lookUp]
    split <;> rfl
  | offer worker share next =>
    simp only [step, Commons.offer]
    split <;> simp [Commons.setDispatcher, Dispatcher.workers]
  | _ => rfl

theorem Take.figure_step (t : Take) (c : Counts) (f : Figure) :
    (step (t, c)).1.got.figure f + (step (t, c)).2.figure f = t.got.figure f + c.figure f := by
  obtain ⟨left, got⟩ := t
  match left with
  | [] => rfl
  | .badLines :: left =>
    cases f with
    | counter other => cases other <;> rfl
    | badLines sort =>
      simp [step, Counts.figure, Counts.total_append, Counts.total]
  | .counter counter :: left =>
    cases f with
    | counter other =>
      simp only [step, Counts.figure, Counts.add, Counts.get_set]
      split
      case isTrue same => subst same; omega
      case isFalse => rfl
    | badLines sort => simp [step, Counts.figure, Counts.add]

def Dispatcher.held (d : Dispatcher Binary64) (size : Share Binary64 → Nat) : Nat :=
  (d.queues.map fun q => (q.items.map size).sum).sum

theorem sum_set {l : List Nat} {i x : Nat} (h : l[i]? = some x) (y : Nat) :
    (l.set i y).sum + x = l.sum + y := by
  induction l generalizing i with
  | nil => simp at h
  | cons first rest ih =>
    cases i with
    | zero =>
      obtain rfl : first = x := by simpa using h
      simp only [List.set_cons_zero, List.sum_cons]
      omega
    | succ i =>
      have rest := ih (i := i) (by simpa using h)
      simp only [List.set_cons_succ, List.sum_cons]
      omega

theorem Dispatcher.held_set {d : Dispatcher Binary64} {worker : Nat}
    {queue : Queue (Share Binary64)} (at_worker : d.queues[worker]? = some queue)
    (changed : Queue (Share Binary64)) (size : Share Binary64 → Nat) :
    ({ d with queues := d.queues.set worker changed } : Dispatcher Binary64).held size +
        (queue.items.map size).sum =
      d.held size + (changed.items.map size).sum := by
  simpa only [held, List.map_set] using
    sum_set (l := d.queues.map fun q => (q.items.map size).sum) (i := worker)
      (by simp [at_worker]) (changed.items.map size).sum

theorem Commons.held_offer (s : Commons) (worker : Nat) (share : Share Binary64)
    (size : Share Binary64 → Nat) :
    (s.offer worker share).2.intake.delivery.dispatcher.held size =
      s.intake.delivery.dispatcher.held size +
        if (s.offer worker share).1 then size share else 0 := by
  unfold offer
  cases offered : s.intake.delivery.dispatcher.queues[worker]?.bind (·.offer? share) with
  | none => simp only [offered]; rfl
  | some queue =>
    obtain ⟨before, at_worker, taken⟩ := Option.bind_eq_some_iff.mp offered
    have held := Dispatcher.held_set at_worker queue size
    rw [Queue.items_offer taken, List.map_append, List.sum_append] at held
    simp only [List.map_cons, List.map_nil, List.sum_cons, List.sum_nil] at held
    simp only [offered, setDispatcher, if_true]
    omega

-- What a call has got into the queues is in them.
theorem Program.held_step (now : Nat) (p : Program) (s : Commons) (d : Deeds)
    (size : Share Binary64 → Nat) :
    (step now (p, s)).2.intake.delivery.dispatcher.held size + d.enqueued size =
      s.intake.delivery.dispatcher.held size + (p.deed s d).enqueued size := by
  cases p with
  | done | count _ _ _ | countFault _ _ | log _ _ | turn _ => rfl
  | logFault fault next =>
    simp only [step, Commons.logFault, deed]
    split <;> rfl
  | lookUp source tags next =>
    simp only [step, Commons.lookUp, deed]
    split <;> rfl
  | offer worker share next =>
    have held := s.held_offer worker share size
    simp only [step, deed]
    split at held
    case isTrue taken =>
      rw [if_pos taken, Deeds.enqueued_enqueue]
      omega
    case isFalse refused =>
      rw [if_neg refused, held]
      rfl

structure Call where
  batch : List Datagram
  program : Program
  deeds : Deeds := {}

def Program.isDone : Program → Bool
  | .done => true
  | _ => false

-- The counters that the read loops raise, before a batch is handled.
def Counter.ofReaders : Counter → Bool
  | .packets | .bytes | .readErrors | .truncated => true
  | _ => false

structure Counting where
  commons : Commons
  calls : List Call := []
  takes : List Take := []
  -- The shares that the workers have taken out of their queues.
  withdrawn : List (Share Binary64) := []
  noted : Counts := {}

namespace Counting

inductive Move where
  | call (batch : List Datagram)
  | proceed (call now : Nat)
  | take
  | collect (take : Nat)
  | note (counter : Counter) (amount : Nat)
  | withdraw (worker amount : Nat)
  | close (worker : Nat)
  | learn (hosts : Option Hosts.Directory)

def start (rules : Line.Rules) (delivery : Delivery Binary64) (now : Nat) : Counting :=
  { commons := { intake := .start rules delivery now } }

def proceed (s : Counting) (i now : Nat) : Counting :=
  match s.calls[i]? with
  | none => s
  | some call =>
    let (program, commons) := Program.step now (call.program, s.commons)
    let deeds := call.program.deed s.commons call.deeds
    { s with commons, calls := s.calls.set i { call with program, deeds } }

def collect (s : Counting) (i : Nat) : Counting :=
  match s.takes[i]? with
  | none => s
  | some take =>
    let (take, counts) := Take.step (take, s.commons.intake.counts)
    { s with
      commons := { s.commons with intake := { s.commons.intake with counts } }
      takes := s.takes.set i take }

def note (s : Counting) (counter : Counter) (amount : Nat) : Counting :=
  if counter.ofReaders then
    { s with commons := s.commons.count counter amount, noted := s.noted.add counter amount }
  else s

def changeQueue (s : Counting) (worker : Nat) (queue : Queue (Share Binary64)) : Counting :=
  let dispatcher := s.commons.intake.delivery.dispatcher
  { s with
    commons :=
      s.commons.setDispatcher { dispatcher with queues := dispatcher.queues.set worker queue } }

def withdraw (s : Counting) (worker amount : Nat) : Counting :=
  match s.commons.intake.delivery.dispatcher.queues[worker]? with
  | none => s
  | some queue =>
    { s.changeQueue worker { queue with items := queue.items.drop amount } with
      withdrawn := s.withdrawn ++ queue.items.take amount }

def close (s : Counting) (worker : Nat) : Counting :=
  match s.commons.intake.delivery.dispatcher.queues[worker]? with
  | none => s
  | some queue => s.changeQueue worker { queue with isOpen := false }

def step (s : Counting) : Move → Counting
  | .call batch =>
    let program :=
      Program.handle s.commons.intake.rules s.commons.intake.delivery.dispatcher.workers batch
    { s with calls := s.calls ++ [{ batch, program }] }
  | .proceed call now => s.proceed call now
  | .take => { s with takes := s.takes ++ [.start] }
  | .collect take => s.collect take
  | .note counter amount => s.note counter amount
  | .withdraw worker amount => s.withdraw worker amount
  | .close worker => s.close worker
  | .learn hosts =>
    let delivery := { s.commons.intake.delivery with hosts }
    { s with commons := { s.commons with intake := { s.commons.intake with delivery } } }

def run (s : Counting) (moves : List Move) : Counting :=
  moves.foldl step s

-- What all takes have got, and what is left in the counts.
def total (s : Counting) (f : Figure) : Nat :=
  (s.takes.map (·.got.figure f)).sum + s.commons.intake.counts.figure f

-- How much of something has come into the queues: what they hold, and what was taken out of them.
def received (s : Counting) (size : Share Binary64 → Nat) : Nat :=
  s.commons.intake.delivery.dispatcher.held size + (s.withdrawn.map size).sum

structure Balances (first s : Counting) : Prop where
  records : s.total (.counter .lines) = s.total (.counter .metrics) +
    s.total (.counter .events) + s.total (.badLines fun _ => true)
  lines : s.total (.counter .lines) = (s.calls.map fun call => countedLines call.batch).sum
  metrics : first.received Share.metricCount + s.total (.counter .metrics) =
    s.received Share.metricCount + s.total (.counter .metricsDropped)
  events : first.received Share.eventCount + s.total (.counter .events) =
    s.received Share.eventCount + s.total (.counter .eventsDropped)
  -- Every increment is there, once.
  once : ∀ f, s.total f = s.noted.figure f + (s.calls.map (·.deeds.counts.figure f)).sum

-- Calls and takes that are not interrupted do in their steps what is done in one go otherwise.
structure Coarsens (s : Counting) : Prop where
  call : ∀ batch now, ∃ steps deeds,
    s.run (.call batch :: List.replicate steps (.proceed s.calls.length now)) =
      let (intake, journal) := s.commons.intake.receive batch now
      { s with
        commons := { intake, journal := s.commons.journal ++ journal }
        calls := s.calls ++ [⟨batch, .done, deeds⟩] }
  take : ∃ steps,
    s.run (.take :: List.replicate steps (.collect s.takes.length)) =
      { s with
        commons := { s.commons with intake := { s.commons.intake with counts := {} } }
        takes := s.takes ++ [⟨[], s.commons.intake.counts⟩] }

theorem set_eq_self {α : Type} {l : List α} {i : Nat} {x : α} (h : l[i]? = some x) :
    l.set i x = l := by
  obtain ⟨lt, rfl⟩ := List.getElem?_eq_some_iff.mp h
  exact List.set_getElem_self lt

theorem run_cons (s : Counting) (move : Move) (moves : List Move) :
    s.run (move :: moves) = (s.step move).run moves :=
  rfl

theorem run_proceed (s : Counting) (i now steps : Nat) (call : Call)
    (at_i : s.calls[i]? = some call) :
    ∃ deeds, s.run (List.replicate steps (.proceed i now)) =
      let (program, commons) := (Program.step now)^[steps] (call.program, s.commons)
      { s with commons, calls := s.calls.set i ⟨call.batch, program, deeds⟩ } := by
  induction steps generalizing s call with
  | zero => exact ⟨call.deeds, by simp [Counting.run, set_eq_self at_i]⟩
  | succ steps ih =>
    obtain ⟨lt, -⟩ := List.getElem?_eq_some_iff.mp at_i
    have first : s.step (.proceed i now) =
        { s with
          commons := (Program.step now (call.program, s.commons)).2
          calls := s.calls.set i ⟨call.batch, (Program.step now (call.program, s.commons)).1,
            call.program.deed s.commons call.deeds⟩ } := by
      simp [Counting.step, proceed, at_i]
    obtain ⟨deeds, rest⟩ := ih (s.step (.proceed i now)) _
      (by rw [first]; exact List.getElem?_set_self lt)
    refine ⟨deeds, ?_⟩
    rw [List.replicate_succ, run_cons, rest]
    simp [first, Function.iterate_succ_apply]

theorem run_collect (s : Counting) (i steps : Nat) (take : Take)
    (at_i : s.takes[i]? = some take) :
    s.run (List.replicate steps (.collect i)) =
      let (take, counts) := Take.step^[steps] (take, s.commons.intake.counts)
      { s with
        commons := { s.commons with intake := { s.commons.intake with counts } }
        takes := s.takes.set i take } := by
  induction steps generalizing s take with
  | zero => simp [Counting.run, set_eq_self at_i]
  | succ steps ih =>
    obtain ⟨lt, -⟩ := List.getElem?_eq_some_iff.mp at_i
    have first : s.step (.collect i) =
        { s with
          commons :=
            { s.commons with
              intake :=
                { s.commons.intake with
                  counts := (Take.step (take, s.commons.intake.counts)).2 } }
          takes := s.takes.set i (Take.step (take, s.commons.intake.counts)).1 } := by
      simp [Counting.step, collect, at_i]
    have rest := ih (s.step (.collect i)) _ (by rw [first]; exact List.getElem?_set_self lt)
    rw [List.replicate_succ, run_cons, rest]
    simp [first, Function.iterate_succ_apply]

theorem run_call (s : Counting) (i now : Nat) (call : Call) (at_i : s.calls[i]? = some call) :
    ∃ steps deeds, s.run (List.replicate steps (.proceed i now)) =
      { s with
        commons := call.program.run now s.commons
        calls := s.calls.set i ⟨call.batch, .done, deeds⟩ } := by
  obtain ⟨steps, ended⟩ := call.program.iterate_step now s.commons
  obtain ⟨deeds, reached⟩ := run_proceed s i now steps call at_i
  exact ⟨steps, deeds, by rw [reached, ended]⟩

theorem coarsens (s : Counting) : s.Coarsens where
  call batch now := by
    have begun : (s.step (.call batch)).calls[s.calls.length]? = some ⟨batch,
        Program.handle s.commons.intake.rules s.commons.intake.delivery.dispatcher.workers batch,
        {}⟩ :=
      List.getElem?_concat_length
    obtain ⟨steps, deeds, reached⟩ := run_call _ _ now _ begun
    refine ⟨steps, deeds, ?_⟩
    have taken := Program.handle_uninterrupted now s.commons batch
    have calls : (s.step (.call batch)).calls.set s.calls.length ⟨batch, .done, deeds⟩ =
        s.calls ++ [⟨batch, .done, deeds⟩] := by
      simp [Counting.step]
    rw [run_cons, reached, calls]
    simp only [Counting.step, taken]
  take := by
    have begun : (s.step .take).takes[s.takes.length]? = some .start :=
      List.getElem?_concat_length
    have collected := run_collect _ _ 12 _ begun
    have all : Take.step^[12] (.start, (s.step .take).commons.intake.counts) =
        (⟨[], s.commons.intake.counts⟩, {}) :=
      Take.start_uninterrupted _
    have takes : (s.step .take).takes.set s.takes.length ⟨[], s.commons.intake.counts⟩ =
        s.takes ++ [⟨[], s.commons.intake.counts⟩] := by
      simp [Counting.step]
    rw [all] at collected
    refine ⟨12, ?_⟩
    rw [run_cons, collected]
    simp only [takes]
    rfl

end Counting

end StatsDaemon.Pipeline
