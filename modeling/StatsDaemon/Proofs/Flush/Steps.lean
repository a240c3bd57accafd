import StatsDaemon.Flush.Service

namespace StatsDaemon.Flush.Service

variable {π : Type} [Pool π]

inductive Step (now : Nat) (s : Service π) : Service π → Prop where
  | complete (p : Submission) (pending : List Submission)
      (free : ∀ deadline occasion, s.phase ≠ .collecting deadline occasion)
      (taken : Due.take? Submission.due now s.pending = some (p, pending)) :
      Step now s ({ s with pending }.tell ((p.result now).journal p.backend))
  | message (drain : Bool) (requests : Mailbox Bool) (idle : s.phase = .idle)
      (received : s.requests.receive? = some (drain, requests)) :
      Step now s ({ s with requests }.beginCycle (.message drain) now)
  | tick (idle : s.phase = .idle) (due : s.ticker.isDue now) :
      Step now s ({ s with ticker := s.ticker.skip now }.beginCycle .tick now)
  | finish (deadline : Nat) (occasion : Occasion)
      (collecting : s.phase = .collecting deadline occasion)
      (expired : deadline ≤ now ∨ ∀ c ∈ s.collected now, c.status ≠ .late) :
      Step now s (s.endCycle occasion (s.collected now) now)
  | await (deadline : Nat) (occasion : Occasion)
      (collecting : s.phase = .collecting deadline occasion) : Step now s s.await
  | reply (batch : Batch Binary64) (finishing : s.phase = .finishing batch)
      (ended : s.pending = []) :
      Step now s { s with phase := .idle, replies := s.replies ++ [batch] }

theorem step_of_step? {s t : Service π} {now : Nat} (h : s.step? now = some t) : Step now s t := by
  unfold step? at h
  cases phase : s.phase with
  | idle =>
    have free : ∀ deadline occasion, s.phase ≠ .collecting deadline occasion := by simp [phase]
    simp only [phase] at h
    cases completed : s.completeOne? now with
    | some r =>
      obtain rfl : r = t := by simpa [completed] using h
      obtain ⟨⟨p, pending⟩, taken, rfl⟩ := Option.map_eq_some_iff.mp completed
      exact .complete p pending free taken
    | none =>
      cases received : s.requests.receive? with
      | some message =>
        obtain rfl := Option.some.inj (by simpa only [completed, received] using h)
        exact .message message.1 message.2 phase received
      | none =>
        simp only [completed, received, Option.ite_none_right_eq_some, Option.some.injEq] at h
        obtain ⟨due, rfl⟩ := h
        exact .tick phase due
  | collecting deadline occasion =>
    simp only [phase] at h
    split at h
    case isTrue expired =>
      obtain rfl := Option.some.inj h
      exact .finish deadline occasion phase (by simpa using expired)
    case isFalse =>
      obtain ⟨-, rfl⟩ : _ ∧ s.await = t := by simpa using h
      exact .await deadline occasion phase
  | finishing batch =>
    have free : ∀ deadline occasion, s.phase ≠ .collecting deadline occasion := by simp [phase]
    simp only [phase] at h
    cases completed : s.completeOne? now with
    | some r =>
      obtain rfl : r = t := by simpa [completed] using h
      obtain ⟨⟨p, pending⟩, taken, rfl⟩ := Option.map_eq_some_iff.mp completed
      exact .complete p pending free taken
    | none =>
      simp only [completed, Option.ite_none_right_eq_some, Option.some.injEq] at h
      obtain ⟨ended, rfl⟩ := h
      exact .reply batch phase (by simpa using ended)

section

variable (s : Service π) (occasion : Occasion) (collected : List (Collected Binary64 Promise))
  (now : Nat)

@[simp] theorem settings_endCycle : (s.endCycle occasion collected now).settings = s.settings := by
  rcases occasion with _ | (_ | _) <;> rfl

@[simp] theorem pool_endCycle :
    (s.endCycle occasion collected now).pool = (Pool.takeCounts s.pool).1 := by
  rcases occasion with _ | (_ | _) <;> rfl

@[simp] theorem outstanding_endCycle : (s.endCycle occasion collected now).outstanding =
    collected.map fun c => c.requests.map fun p => { p with fresh := false } := by
  rcases occasion with _ | (_ | _) <;> rfl

@[simp] theorem pending_endCycle : (s.endCycle occasion collected now).pending =
    s.pending ++ (s.backends.map Backend.next).mapIdx fun i (b, delivery) =>
      ⟨s.submitted + i, b.name, delivery, now, now + s.settings.backendTimeout⟩ := by
  rcases occasion with _ | (_ | _) <;> rfl

theorem phase_endCycle_last :
    (s.endCycle (.message true) collected now).phase =
      .finishing (batchOf (collected.filterMap Collected.report) s.settings.thresholds
        s.settings.interval (s.settings.timestamp now)) :=
  rfl

end

theorem Step.settings {s t : Service π} {now : Nat} (h : Step now s t) :
    t.settings = s.settings := by
  cases h with
  | finish => exact settings_endCycle ..
  | _ => rfl

end StatsDaemon.Flush.Service
