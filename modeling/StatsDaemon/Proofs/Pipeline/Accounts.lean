import StatsDaemon.Proofs.Pipeline.Counting

namespace StatsDaemon.Pipeline

namespace Counting

structure Kept (first s : Counting) : Prop where
  busy : 0 < s.commons.intake.delivery.dispatcher.workers
  settles : ∀ call ∈ s.calls,
    call.program.Settles (Deeds.Balanced (countedLines call.batch)) call.deeds
  readers : ∀ counter, counter.ofReaders = false → s.noted.get counter = 0
  noFaults : s.noted.badLines = []
  once : ∀ f, s.total f = s.noted.figure f + (s.calls.map (·.deeds.counts.figure f)).sum
  -- What has come into the queues has come from the calls.
  queued : ∀ size, s.received size =
    first.received size + (s.calls.map (·.deeds.enqueued size)).sum

theorem sum_set_deeds {calls : List Call} {i : Nat} {call : Call} (at_i : calls[i]? = some call)
    (program : Program) (deeds : Deeds) (g : Deeds → Nat) :
    ((calls.set i ⟨call.batch, program, deeds⟩).map fun call => g call.deeds).sum + g call.deeds =
      (calls.map fun call => g call.deeds).sum + g deeds := by
  rw [List.map_set]
  exact sum_set (by simp [at_i]) _

namespace Kept

variable {first s : Counting}

theorem start (rules : Line.Rules) (delivery : Delivery Binary64) (now : Nat)
    (busy : 0 < delivery.dispatcher.workers) :
    Kept (.start rules delivery now) (.start rules delivery now) where
  busy := busy
  settles := by simp [Counting.start]
  readers := by
    intro counter _
    cases counter <;> rfl
  noFaults := rfl
  once := by simp [Counting.start, Counting.total, Intake.start]
  queued := by simp [Counting.start]

theorem proceed (k : Kept first s) (i now : Nat) : Kept first (s.proceed i now) := by
  unfold Counting.proceed
  split
  case h_1 => exact k
  case h_2 call at_i =>
    refine ⟨(Program.workers_step now _ _).symm ▸ k.busy, ?_, k.readers, k.noFaults,
      fun f => ?_, fun size => ?_⟩
    · intro other mem
      obtain old | rfl := List.mem_or_eq_of_mem_set mem
      · exact k.settles other old
      · exact (k.settles call (List.mem_of_getElem? at_i)).step now s.commons
    · have step := Program.figure_step now call.program s.commons call.deeds f
      have calls := sum_set_deeds at_i (Program.step now (call.program, s.commons)).1
        (call.program.deed s.commons call.deeds) (·.counts.figure f)
      have before := k.once f
      simp only [Counting.total] at before calls ⊢
      omega
    · have step := Program.held_step now call.program s.commons call.deeds size
      have calls := sum_set_deeds at_i (Program.step now (call.program, s.commons)).1
        (call.program.deed s.commons call.deeds) (·.enqueued size)
      have before := k.queued size
      simp only [Counting.received] at before calls ⊢
      omega

theorem collect (k : Kept first s) (i : Nat) : Kept first (s.collect i) := by
  unfold Counting.collect
  split
  case h_1 => exact k
  case h_2 take at_i =>
    refine ⟨k.busy, k.settles, k.readers, k.noFaults, fun f => ?_, k.queued⟩
    have step := take.figure_step s.commons.intake.counts f
    have takes := sum_set (l := s.takes.map (·.got.figure f)) (i := i) (x := take.got.figure f)
      (by simp [at_i]) ((Take.step (take, s.commons.intake.counts)).1.got.figure f)
    have before := k.once f
    simp only [Counting.total, List.map_set] at before ⊢
    omega

theorem call (k : Kept first s) (batch : List Datagram) : Kept first (s.step (.call batch)) where
  busy := k.busy
  settles := by
    intro call mem
    obtain old | rfl := List.mem_append.mp mem |>.imp_right List.mem_singleton.mp
    · exact k.settles call old
    · exact Program.settles_handle _ _ k.busy batch
  readers := k.readers
  noFaults := k.noFaults
  once f := by
    have before := k.once f
    simpa [Counting.step, Counting.total, Counts.figure_empty] using before
  queued size := by
    have before := k.queued size
    simpa [Counting.step, Counting.received, Deeds.enqueued] using before

theorem take (k : Kept first s) : Kept first (s.step .take) where
  busy := k.busy
  settles := k.settles
  readers := k.readers
  noFaults := k.noFaults
  once f := by
    have before := k.once f
    simpa [Counting.step, Counting.total, Take.start, Counts.figure_empty] using before
  queued := k.queued

theorem note (k : Kept first s) (counter : Counter) (amount : Nat) :
    Kept first (s.note counter amount) := by
  unfold Counting.note
  split
  case isFalse => exact k
  case isTrue readers =>
    refine ⟨k.busy, k.settles, fun other mine => ?_, ?_, fun f => ?_, k.queued⟩
    · have ne : other ≠ counter := by
        rintro rfl
        exact absurd (mine.symm.trans readers) (by simp)
      simpa [Counts.add, Counts.get_set, ne] using k.readers other mine
    · simpa [Counts.add] using k.noFaults
    · have added := Counts.figure_add s.commons.intake.counts s.noted counter amount f
      have before := k.once f
      simp only [Counting.total, Commons.count] at before ⊢
      omega

theorem changeQueue (k : Kept first s) {worker : Nat} {queue : Queue (Share Binary64)}
    (at_worker : s.commons.intake.delivery.dispatcher.queues[worker]? = some queue)
    (changed : Queue (Share Binary64)) (withdrawn : List (Share Binary64))
    (same : withdrawn ++ changed.items = queue.items) :
    Kept first { s.changeQueue worker changed with withdrawn := s.withdrawn ++ withdrawn } where
  busy := by
    simpa [Counting.changeQueue, Commons.setDispatcher, Dispatcher.workers] using k.busy
  settles := k.settles
  readers := k.readers
  noFaults := k.noFaults
  once := k.once
  queued size := by
    have before := k.queued size
    have held := Dispatcher.held_set at_worker changed size
    simp only [← same, List.map_append, List.sum_append] at held
    simp only [Counting.received, Counting.changeQueue, Commons.setDispatcher, List.map_append,
      List.sum_append] at before ⊢
    omega

theorem withdraw (k : Kept first s) (worker amount : Nat) :
    Kept first (s.withdraw worker amount) := by
  unfold Counting.withdraw
  split
  case h_1 => exact k
  case h_2 queue at_worker =>
    exact k.changeQueue at_worker _ _ (List.take_append_drop amount queue.items)

theorem close (k : Kept first s) (worker : Nat) : Kept first (s.close worker) := by
  unfold Counting.close
  split
  case h_1 => exact k
  case h_2 queue at_worker =>
    simpa [Counting.changeQueue] using
      k.changeQueue at_worker { queue with isOpen := false } [] rfl

theorem step (k : Kept first s) : (move : Move) → Kept first (s.step move)
  | .call batch => k.call batch
  | .proceed i now => k.proceed i now
  | .take => k.take
  | .collect i => k.collect i
  | .note counter amount => k.note counter amount
  | .withdraw worker amount => k.withdraw worker amount
  | .close worker => k.close worker
  | .learn _ => { k with }

theorem run (k : Kept first s) (moves : List Move) : Kept first (s.run moves) := by
  induction moves generalizing s with
  | nil => exact k
  | cons move rest ih => exact ih (k.step move)

theorem balances (k : Kept first s) (ended : ∀ call ∈ s.calls, call.program.isDone) :
    Balances first s := by
  have balanced : ∀ call ∈ s.calls, call.deeds.Balanced (countedLines call.batch) := by
    intro call mem
    have settles := k.settles call mem
    have done := ended call mem
    cases program : call.program with
    | done => simpa [program, Program.Settles] using settles
    | _ => simp [program, Program.isDone] at done
  have mine (counter : Counter) (h : counter.ofReaders = false) : s.total (.counter counter) =
      (s.calls.map (·.deeds.counts.get counter)).sum := by
    simp [k.once, Counts.figure, k.readers counter h]
  have faults : s.total (.badLines fun _ => true) =
      (s.calls.map (·.deeds.counts.totalBadLines)).sum := by
    simp [k.once, Counts.figure_all, Counts.totalBadLines, k.noFaults, Counts.total]
  have sums {f g : Call → Nat} (h : ∀ call ∈ s.calls, f call = g call) :
      (s.calls.map f).sum = (s.calls.map g).sum :=
    congrArg List.sum (List.map_congr_left h)
  refine ⟨?_, ?_, ?_, ?_, k.once⟩
  · rw [mine .lines rfl, mine .metrics rfl, mine .events rfl, faults, ← List.sum_map_add,
      ← List.sum_map_add]
    exact sums fun call mem => (balanced call mem).records
  · rw [mine .lines rfl]
    exact sums fun call mem => (balanced call mem).lines
  · rw [mine .metrics rfl, mine .metricsDropped rfl, k.queued, Nat.add_assoc, ← List.sum_map_add]
    exact congrArg _ (sums fun call mem => (balanced call mem).metrics)
  · rw [mine .events rfl, mine .eventsDropped rfl, k.queued, Nat.add_assoc, ← List.sum_map_add]
    exact congrArg _ (sums fun call mem => (balanced call mem).events)

end Kept

-- With one worker at least, whatever the rules, the queues and the order of the steps.
theorem accounts_balance (rules : Line.Rules) (delivery : Delivery Binary64) (now : Nat)
    (moves : List Move) (busy : 0 < delivery.dispatcher.workers)
    (ended : ∀ call ∈ ((start rules delivery now).run moves).calls, call.program.isDone) :
    let first := start rules delivery now
    Balances first (first.run moves) ∧ (first.run moves).Coarsens :=
  ⟨((Kept.start rules delivery now busy).run moves).balances ended, coarsens _⟩

-- An event, a blank line and a malformed line, in two calls, with a take in the midst of both. The
-- worker has taken the event.
theorem two_calls_balance :
    let delivery : Delivery Binary64 := { dispatcher := .ofWorkers 1 1 }
    let event : Datagram := ⟨Text.encode "_e\x7b1,1\x7d:a|b".toList, .v4 [127, 0, 0, 1]⟩
    let odd : Datagram := ⟨[13, 10, 255], .v4 [127, 0, 0, 1]⟩
    let moves : List Move :=
      [.call [event], .call [odd], .take, .proceed 0 0, .proceed 1 0, .collect 0, .proceed 1 0]
        ++ List.replicate 12 (Move.proceed 1 0) ++ List.replicate 3 (Move.collect 0)
        ++ List.replicate 12 (Move.proceed 0 0) ++ [.withdraw 0 1]
    0 < delivery.dispatcher.workers ∧
      (∀ call ∈ ((start {} delivery 0).run moves).calls, call.program.isDone) ∧
      ((start {} delivery 0).run moves).received Share.eventCount = 1 ∧
      Balances (start {} delivery 0) ((start {} delivery 0).run moves) := by
  intro delivery event odd moves
  have ended : ∀ call ∈ ((start {} delivery 0).run moves).calls, call.program.isDone := by
    decide +kernel
  have received : ((start {} delivery 0).run moves).received Share.eventCount = 1 := by
    decide +kernel
  exact ⟨by decide, ended, received, (accounts_balance {} delivery 0 moves (by decide) ended).1⟩

end Counting

end StatsDaemon.Pipeline
