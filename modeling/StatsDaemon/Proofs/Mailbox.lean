import Mathlib.Data.List.Perm.Basic
import StatsDaemon.Mailbox

namespace StatsDaemon.Mailbox

variable {μ : Type}

def take? (m : Mailbox μ) : Option (μ × Mailbox μ) :=
  match m.waiting with
  | [] => none
  | message :: waiting => some (message, { m with waiting })

def discount (m : Mailbox μ) : Mailbox μ :=
  { m with backlog := m.backlog - 1 }

theorem receive?_eq (m : Mailbox μ) :
    m.receive? = m.take?.map fun (message, m) => (message, m.discount) := by
  unfold receive? take?
  cases m.waiting <;> rfl

-- A sender counts its message before it delivers it, and the service takes a message before it
-- takes it off the count. Others may take their steps in between.
structure Traffic (μ : Type) where
  mailbox : Mailbox μ := {}
  -- Messages that are counted and not delivered yet, of one sender each.
  sending : List μ := []
  -- The message that the service has taken and not taken off the count yet.
  taken : Option μ := none
  received : List μ := []
  -- Messages that waited when the service stopped, and those that were delivered later.
  lost : List μ := []

-- What happens next; senders are named by their positions.
inductive Turn (μ : Type) where
  | announce (message : μ)
  | deliver (sender : Nat)
  | take
  | discount
  | stop

def Turn.message? : Turn μ → Option μ
  | .announce message => some message
  | _ => none

def messages (turns : List (Turn μ)) : List μ :=
  turns.flatMap fun turn => turn.message?.toList

theorem messages_cons (turn : Turn μ) (turns : List (Turn μ)) :
    messages (turn :: turns) = turn.message?.toList ++ messages turns :=
  List.flatMap_cons

namespace Traffic

def announce (t : Traffic μ) (message : μ) : Traffic μ :=
  { t with mailbox := t.mailbox.announce, sending := t.sending ++ [message] }

def deliver (t : Traffic μ) (sender : Nat) : Traffic μ :=
  match t.sending[sender]? with
  | none => t
  | some message =>
    { t with
      mailbox := t.mailbox.deliver message
      sending := t.sending.eraseIdx sender
      lost := if t.mailbox.isOpen then t.lost else t.lost ++ [message] }

def take (t : Traffic μ) : Traffic μ :=
  match t.taken, t.mailbox.take? with
  | none, some (message, mailbox) => { t with mailbox, taken := some message }
  | _, _ => t

def discount (t : Traffic μ) : Traffic μ :=
  match t.taken with
  | none => t
  | some message =>
    { t with
      mailbox := t.mailbox.discount
      taken := none
      received := t.received ++ [message] }

-- The service does not stop between the two steps of receiving.
def stop (t : Traffic μ) : Traffic μ :=
  match t.taken with
  | none => { t with mailbox := t.mailbox.close, lost := t.lost ++ t.mailbox.waiting }
  | some _ => t

def step (t : Traffic μ) : Turn μ → Traffic μ
  | .announce message => t.announce message
  | .deliver sender => t.deliver sender
  | .take => t.take
  | .discount => t.discount
  | .stop => t.stop

def run (t : Traffic μ) (turns : List (Turn μ)) : Traffic μ :=
  turns.foldl step t

def AtRest (t : Traffic μ) : Prop :=
  t.sending = [] ∧ t.taken = none

def counted (t : Traffic μ) : List μ :=
  t.sending ++ t.taken.toList ++ t.mailbox.waiting ++ t.lost

theorem length_counted {t : Traffic μ} (rest : t.AtRest) :
    t.counted.length = t.mailbox.waiting.length + t.lost.length := by
  obtain ⟨sending, taken⟩ := rest
  simp [counted, sending, taken]

-- A sender or a service that is not interrupted does what the mailbox does in one step.
structure Coarsens (t : Traffic μ) : Prop where
  send : ∀ message,
    (t.run [.announce message, .deliver t.sending.length]).mailbox = t.mailbox.send message
  receive : t.taken = none →
    (t.run [.take, .discount]).mailbox = (t.mailbox.receive?.map Prod.snd).getD t.mailbox

theorem send_uninterrupted (t : Traffic μ) (message : μ) :
    (t.run [.announce message, .deliver t.sending.length]).mailbox = t.mailbox.send message := by
  simp [run, step, announce, deliver, send]

theorem receive_uninterrupted (t : Traffic μ) (idle : t.taken = none) :
    (t.run [.take, .discount]).mailbox = (t.mailbox.receive?.map Prod.snd).getD t.mailbox := by
  simp only [run, List.foldl_cons, List.foldl_nil, step, take, idle, receive?_eq]
  cases t.mailbox.take? with
  | none => simp [discount, idle]
  | some next => simp [discount]

theorem coarsens (t : Traffic μ) : t.Coarsens :=
  ⟨t.send_uninterrupted, t.receive_uninterrupted⟩

section Counted

variable (t : Traffic μ)

theorem counted_announce (message : μ) :
    (t.announce message).counted.Perm (message :: t.counted) := by
  simp only [counted, announce, List.append_assoc, List.cons_append, List.nil_append]
  exact List.perm_middle

theorem counted_deliver (sender : Nat) : (t.deliver sender).counted.Perm t.counted := by
  classical
  unfold deliver
  split
  case h_1 => rfl
  case h_2 message at_sender =>
    obtain ⟨h, rfl⟩ := List.getElem?_eq_some_iff.mp at_sender
    have left (x : μ) := (List.getElem_cons_eraseIdx_perm h).count_eq x
    simp only [List.count_cons] at left
    simp only [List.perm_iff_count, counted, Mailbox.deliver, List.count_append, ← left]
    cases t.mailbox.isOpen <;>
      simp only [if_true, Bool.false_eq_true, if_false, List.count_append, List.count_singleton] <;>
      omega

theorem counted_take : t.take.counted = t.counted := by
  unfold take Mailbox.take?
  cases taken : t.taken with
  | some message => rfl
  | none => cases waits : t.mailbox.waiting <;> simp [counted, taken, waits]

theorem counted_discount {message : μ} (busy : t.taken = some message) :
    t.counted.Perm (message :: t.discount.counted) := by
  simp only [counted, discount, busy, Option.toList_some, Option.toList_none, List.append_assoc,
    List.cons_append, List.nil_append]
  exact List.perm_middle

theorem counted_stop : t.stop.counted.Perm t.counted := by
  unfold stop
  cases idle : t.taken with
  | some message => rfl
  | none =>
    simp only [counted, idle, close, List.append_assoc, List.nil_append]
    exact (List.perm_append_comm.append_left _).append_left _

end Counted

-- The messages that were sent are received or counted, each at one place, and the backlog is the
-- number of those that are counted.
structure Accounted (sent : List μ) (t : Traffic μ) : Prop where
  places : sent.Perm (t.received ++ t.counted)
  backlog : t.mailbox.backlog = .ofNat t.counted.length
  kept : t.mailbox.isOpen = true → t.lost = []
  emptied : t.mailbox.isOpen = false → t.mailbox.waiting = []

namespace Accounted

variable {sent : List μ} {t : Traffic μ}

theorem start : Accounted [] ({} : Traffic μ) where
  places := .nil
  backlog := rfl
  kept _ := rfl
  emptied _ := rfl

theorem announce (a : Accounted sent t) (message : μ) :
    Accounted (sent ++ [message]) (t.announce message) where
  places := by
    have more := (counted_announce t message).symm
    have added := (List.perm_append_singleton message t.counted).trans more
    have places := a.places.append_right [message]
    rw [List.append_assoc] at places
    exact places.trans (added.append_left _)
  backlog := by
    rw [(counted_announce t message).length_eq, List.length_cons, UInt64.ofNat_add, ← a.backlog]
    rfl
  kept := a.kept
  emptied := a.emptied

theorem moved {t' : Traffic μ} (a : Accounted sent t) (same : t'.counted.Perm t.counted)
    (received : t'.received = t.received) (backlog : t'.mailbox.backlog = t.mailbox.backlog)
    (kept : t'.mailbox.isOpen = true → t'.lost = [])
    (emptied : t'.mailbox.isOpen = false → t'.mailbox.waiting = []) : Accounted sent t' where
  places := received ▸ a.places.trans (same.symm.append_left _)
  backlog := by rw [backlog, a.backlog, same.length_eq]
  kept := kept
  emptied := emptied

theorem deliver (a : Accounted sent t) (sender : Nat) : Accounted sent (t.deliver sender) := by
  have same := counted_deliver t sender
  unfold Traffic.deliver at same ⊢
  cases at_sender : t.sending[sender]? with
  | none => exact a
  | some message =>
    rw [at_sender] at same
    cases isOpen : t.mailbox.isOpen with
    | true =>
      rw [isOpen] at same
      refine a.moved same rfl ?_ ?_ ?_ <;> simp [Mailbox.deliver, isOpen, a.kept]
    | false =>
      rw [isOpen] at same
      refine a.moved same rfl ?_ ?_ ?_ <;> simp [Mailbox.deliver, isOpen, a.emptied]

theorem take (a : Accounted sent t) : Accounted sent t.take := by
  have same := counted_take t
  unfold Traffic.take Mailbox.take? at same ⊢
  cases taken : t.taken with
  | some message => exact a
  | none =>
    cases waits : t.mailbox.waiting with
    | nil => exact a
    | cons message waiting =>
      rw [taken, waits] at same
      refine a.moved (.of_eq same) rfl rfl a.kept fun stopped => ?_
      simp [a.emptied stopped] at waits

theorem discount (a : Accounted sent t) : Accounted sent t.discount := by
  cases busy : t.taken with
  | none => simpa [Traffic.discount, busy] using a
  | some message =>
    have less := counted_discount t busy
    have received : t.discount.received = t.received ++ [message] := by
      simp [Traffic.discount, busy]
    have mailbox : t.discount.mailbox = t.mailbox.discount := by simp [Traffic.discount, busy]
    have lost : t.discount.lost = t.lost := by simp [Traffic.discount, busy]
    refine ⟨?_, ?_, ?_, ?_⟩
    · rw [received, List.append_assoc]
      exact a.places.trans (less.append_left _)
    · have backlog := a.backlog
      rw [less.length_eq, List.length_cons, UInt64.ofNat_add] at backlog
      simp [mailbox, Mailbox.discount, backlog]
    · rw [mailbox, lost]
      exact a.kept
    · rw [mailbox]
      exact a.emptied

theorem stop (a : Accounted sent t) : Accounted sent t.stop := by
  have same := counted_stop t
  unfold Traffic.stop at same ⊢
  cases idle : t.taken with
  | some message => exact a
  | none =>
    rw [idle] at same
    exact a.moved same rfl rfl (by simp [close]) fun _ => rfl

theorem step (a : Accounted sent t) (turn : Turn μ) :
    Accounted (sent ++ turn.message?.toList) (t.step turn) := by
  cases turn with
  | announce message => exact a.announce message
  | deliver sender => simpa [Turn.message?, Traffic.step] using a.deliver sender
  | take => simpa [Turn.message?, Traffic.step] using a.take
  | discount => simpa [Turn.message?, Traffic.step] using a.discount
  | stop => simpa [Turn.message?, Traffic.step] using a.stop

theorem run (a : Accounted sent t) (turns : List (Turn μ)) :
    Accounted (sent ++ messages turns) (t.run turns) := by
  induction turns generalizing sent t with
  | nil => simpa [messages, Traffic.run] using a
  | cons turn turns ih =>
    have next := ih (a.step turn)
    rwa [List.append_assoc, ← messages_cons] at next

theorem toNat_backlog (a : Accounted sent t) (few : t.counted.length < UInt64.size) :
    t.mailbox.backlog.toNat = t.counted.length := by
  rw [a.backlog]
  exact UInt64.toNat_ofNat_of_lt' few

theorem backlog_of_open (a : Accounted sent t) (rest : t.AtRest)
    (isOpen : t.mailbox.isOpen = true) :
    t.mailbox.backlog = .ofNat t.mailbox.waiting.length := by
  simp [a.backlog, length_counted rest, a.kept isOpen]

theorem backlog_of_stopped (a : Accounted sent t) (rest : t.AtRest)
    (stopped : t.mailbox.isOpen = false) : t.mailbox.backlog = .ofNat t.lost.length := by
  simp [a.backlog, length_counted rest, a.emptied stopped]

-- A message that the service has taken is still counted, so there is something to take off.
theorem toNat_discount (a : Accounted sent t) (few : t.counted.length < UInt64.size)
    (busy : t.taken.isSome = true) :
    t.mailbox.discount.backlog.toNat + 1 = t.mailbox.backlog.toNat := by
  have counted_pos : 0 < t.counted.length := by
    obtain ⟨message, taken⟩ := Option.isSome_iff_exists.mp busy
    simp only [counted, taken, Option.toList_some, List.length_append, List.length_singleton]
    omega
  have backlog := a.toNat_backlog few
  have le : (1 : UInt64) ≤ t.mailbox.backlog := UInt64.le_iff_toNat_le.mpr (by simp; omega)
  have := UInt64.toNat_sub_of_le _ _ le
  simp only [Mailbox.discount, this, UInt64.toNat_one]
  omega

end Accounted

-- At rest the backlog of a service that runs is the number of messages that wait. After the service
-- has stopped none waits, and the backlog is the number of messages that are lost. No message is
-- taken off a backlog of zero, as long as the count fits its word.
theorem backlog_counts_waiting {turns : List (Turn μ)} {t : Traffic μ}
    (reached : Traffic.run {} turns = t) :
    (messages turns).Perm (t.received ++ t.counted) ∧
      (t.AtRest → t.mailbox.isOpen = true →
        t.lost = [] ∧ t.mailbox.backlog = .ofNat t.mailbox.waiting.length) ∧
      (t.AtRest → t.mailbox.isOpen = false →
        t.mailbox.waiting = [] ∧ t.mailbox.backlog = .ofNat t.lost.length) ∧
      (t.counted.length < UInt64.size →
        (t.taken.isSome = true →
          t.mailbox.discount.backlog.toNat + 1 = t.mailbox.backlog.toNat) ∧
        (t.AtRest → (t.mailbox.backlog.toNat = t.mailbox.waiting.length ↔ t.lost = []))) ∧
      t.Coarsens := by
  have a : Accounted (messages turns) t := reached ▸ Accounted.start.run turns
  refine ⟨a.places, fun rest isOpen => ?_, fun rest stopped => ?_,
    fun few => ⟨?_, fun rest => ?_⟩, t.coarsens⟩
  · exact ⟨a.kept isOpen, a.backlog_of_open rest isOpen⟩
  · exact ⟨a.emptied stopped, a.backlog_of_stopped rest stopped⟩
  · exact a.toNat_discount few
  · rw [a.toNat_backlog few, length_counted rest]
    simp

-- Two senders whose steps cross: the one that counts last delivers first, and its message is taken
-- before the other one is delivered.
def crossing : List (Turn String) :=
  [.announce "10.0.0.1", .announce "10.0.0.2", .deliver 1, .take, .deliver 0, .discount]

def crossingStopped : List (Turn String) :=
  crossing ++ [.announce "10.0.0.3", .stop, .deliver 0]

theorem crossing_counted :
    ((Traffic.run {} crossing).AtRest ∧ (Traffic.run {} crossing).counted.length < UInt64.size ∧
      (Traffic.run {} crossing).mailbox.waiting = ["10.0.0.1"] ∧
      (Traffic.run {} crossing).mailbox.backlog.toNat = 1) ∧
    ((Traffic.run {} crossingStopped).AtRest ∧
      (Traffic.run {} crossingStopped).mailbox.isOpen = false ∧
      (Traffic.run {} crossingStopped).lost = ["10.0.0.1", "10.0.0.3"] ∧
      (Traffic.run {} crossingStopped).mailbox.backlog = 2) := by
  have rest : (Traffic.run {} crossing).AtRest := ⟨rfl, rfl⟩
  have few : (Traffic.run {} crossing).counted.length < UInt64.size := by decide
  have counted := (((backlog_counts_waiting rfl).2.2.2.1 few).2 rest).mpr rfl
  have reached : Traffic.run {} crossingStopped = Traffic.run {} crossingStopped := rfl
  have stopped := ((backlog_counts_waiting reached).2.2.1 ⟨rfl, rfl⟩ rfl).2
  exact ⟨⟨rest, few, rfl, counted⟩, ⟨rfl, rfl⟩, rfl, rfl, stopped⟩

-- The service stops while a message waits.
theorem stopped_backlog_stays :
    ¬ ∀ turns : List (Turn String), (Traffic.run {} turns).AtRest →
      (Traffic.run {} turns).mailbox.backlog.toNat =
        (Traffic.run {} turns).mailbox.waiting.length := by
  intro h
  have same := h [.announce "10.0.0.1", .deliver 0, .stop] ⟨rfl, rfl⟩
  revert same
  decide

end Traffic

end StatsDaemon.Mailbox
