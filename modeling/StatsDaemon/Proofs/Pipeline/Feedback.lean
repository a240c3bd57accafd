import Mathlib
import StatsDaemon.Pipeline.Drain
import StatsDaemon.Proofs.Pipeline.Refusal

namespace StatsDaemon.Pipeline

open Intake (ownRecords lostRecords)
open Telemetry (ownMetricsDropped)

namespace Drain

-- No queue has room, every measurement is sent, and the channel holds no more than it can.
structure Stuck (d : Drain) : Prop where
  full : ∀ q ∈ d.delivery.dispatcher.queues, q.hasRoom = false
  whole : d.client.sampleRate = 1
  fits : d.packets.length ≤ d.capacity

def report? (d : Drain) (packet : List UInt8) : Option (List UInt8) :=
  if 0 < lostRecords d.delivery packet then
    some (d.client.line (ownMetricsDropped (lostRecords d.delivery packet))).toUTF8.toList
  else none

-- Whether so many packets at most follow from this one, itself included.
def EndsWithin (report? : List UInt8 → Option (List UInt8)) : ℕ → List UInt8 → Prop
  | 0, _ => False
  | n + 1, packet => ∀ next ∈ report? packet, EndsWithin report? n next

theorem EndsWithin.succ {report? : List UInt8 → Option (List UInt8)} {n : ℕ} {packet : List UInt8}
    (h : EndsWithin report? n packet) : EndsWithin report? (n + 1) packet := by
  induction n generalizing packet with
  | zero => exact h.elim
  | succ n ih => exact fun next hnext => ih (h next hnext)

variable {d : Drain}

theorem step_nil (h : d.packets = []) (now : Nat) : d.step now = d := by
  rw [step, h]

theorem lines_ownMetricsDropped {c : Telemetry.Client} (whole : c.sampleRate = 1) (n : ℕ) :
    c.lines (if 0 < n then [ownMetricsDropped n] else []) =
      if 0 < n then [c.line (ownMetricsDropped n)] else [] := by
  have hrate : 0 < c.sampleRate := by
    rw [whole]
    exact Line.one_between.1
  rw [Telemetry.Client.lines, if_pos hrate]
  split
  · rename_i hn
    have hsent : (ownMetricsDropped n).isSent = true := by
      simp [Telemetry.Measurement.isSent, ownMetricsDropped, Telemetry.counter, hn.ne']
    rw [List.filter_cons_of_pos hsent]
    rfl
  · rfl

-- The packet that is taken out leaves room for its report.
theorem Stuck.step_cons (h : d.Stuck) {packet : List UInt8} {rest : List (List UInt8)}
    (hp : d.packets = packet :: rest) (now : Nat) :
    ∃ delivery, delivery.dispatcher.queues = d.delivery.dispatcher.queues ∧
      d.step now = { d with delivery, packets := rest ++ (d.report? packet).toList } := by
  obtain ⟨hqueues, hmeasurements⟩ := Intake.receiveOwn_of_full d.delivery h.full packet now
  refine ⟨_, hqueues, ?_⟩
  have hroom : rest.length < d.capacity := by
    have hfits := h.fits
    rw [hp, List.length_cons] at hfits
    omega
  rw [step, hp]
  simp only [hmeasurements, lines_ownMetricsDropped h.whole, report?]
  split
  · simp only [List.foldl_cons, List.foldl_nil, emit, if_pos hroom, Option.toList_some]
  · simp only [List.foldl_nil, Option.toList_none, List.append_nil]

theorem report?_congr {d e : Drain}
    (queues : e.delivery.dispatcher.queues = d.delivery.dispatcher.queues)
    (client : e.client = d.client) : e.report? = d.report? := by
  have hlost : lostRecords e.delivery = lostRecords d.delivery := by
    funext packet
    unfold lostRecords
    rw [queues]
  funext packet
  rw [report?, report?, hlost, client]

theorem Stuck.step (h : d.Stuck) (now : Nat) :
    (d.step now).Stuck ∧ (d.step now).report? = d.report? ∧
      (d.step now).packets.length ≤ d.packets.length := by
  cases hp : d.packets with
  | nil =>
    rw [step_nil hp]
    exact ⟨h, rfl, by rw [hp]⟩
  | cons packet rest =>
    obtain ⟨delivery, hqueues, hstep⟩ := h.step_cons hp now
    have hreport : (d.report? packet).toList.length ≤ 1 := by
      cases d.report? packet <;> simp
    have hlength : (rest ++ (d.report? packet).toList).length ≤ d.packets.length := by
      rw [hp, List.length_append, List.length_cons]
      omega
    rw [hstep]
    refine ⟨⟨?_, h.whole, hlength.trans h.fits⟩, report?_congr hqueues rfl, hp ▸ hlength⟩
    rw [hqueues]
    exact h.full

theorem after_cons (d : Drain) (now : Nat) (times : List Nat) :
    d.after (now :: times) = (d.step now).after times :=
  rfl

theorem after_append (d : Drain) (times more : List Nat) :
    d.after (times ++ more) = (d.after times).after more :=
  List.foldl_append

theorem after_nil (h : d.packets = []) (times : List Nat) : d.after times = d := by
  induction times with
  | nil => rfl
  | cons now rest ih => rw [after_cons, step_nil h, ih]

theorem Stuck.after (h : d.Stuck) (times : List Nat) :
    (d.after times).Stuck ∧ (d.after times).report? = d.report? ∧
      (d.after times).packets.length ≤ d.packets.length := by
  induction times generalizing d with
  | nil => exact ⟨h, rfl, Nat.le_refl _⟩
  | cons now rest ih =>
    obtain ⟨hstuck, hreport, hlength⟩ := h.step now
    obtain ⟨hafter, hreports, hlengths⟩ := ih hstuck
    exact ⟨hafter, hreports.trans hreport, hlengths.trans hlength⟩

-- The reports of the packets that are taken out follow those that are left.
theorem Stuck.packets_after (h : d.Stuck) {taken left : List (List UInt8)}
    (hp : d.packets = taken ++ left) {times : List Nat} (htimes : times.length = taken.length) :
    (d.after times).packets = left ++ taken.filterMap d.report? := by
  induction taken generalizing d left times with
  | nil =>
    obtain rfl := List.eq_nil_of_length_eq_zero htimes
    exact hp.trans (List.append_nil left).symm
  | cons packet taken ih =>
    obtain ⟨now, times, rfl⟩ := List.exists_cons_of_length_eq_add_one htimes
    obtain ⟨delivery, -, hstep⟩ := h.step_cons hp now
    obtain ⟨hstuck, hreport, -⟩ := h.step now
    have hpackets : (d.step now).packets = taken ++ (left ++ (d.report? packet).toList) := by
      rw [hstep]
      exact List.append_assoc taken left _
    rw [after_cons, ih hstuck hpackets (Nat.succ.inj htimes), hreport, List.append_assoc,
      List.filterMap_cons]
    cases d.report? packet <;> rfl

theorem Stuck.packets_after_eq_nil (h : d.Stuck) {n : ℕ}
    (ends : ∀ packet ∈ d.packets, EndsWithin d.report? n packet) {times : List Nat}
    (htimes : n * d.packets.length ≤ times.length) : (d.after times).packets = [] := by
  induction n generalizing d times with
  | zero =>
    have hp : d.packets = [] := List.eq_nil_iff_forall_not_mem.mpr ends
    rw [after_nil hp, hp]
  | succ n ih =>
    have hlong : d.packets.length ≤ times.length :=
      (Nat.le_mul_of_pos_left _ n.succ_pos).trans htimes
    have hround : (times.take d.packets.length).length = d.packets.length := by
      rw [List.length_take, Nat.min_eq_left hlong]
    have hp := h.packets_after (List.append_nil d.packets).symm hround
    obtain ⟨hstuck, hreport, hlength⟩ := h.after (times.take d.packets.length)
    rw [List.nil_append] at hp
    rw [← List.take_append_drop d.packets.length times, after_append]
    refine ih hstuck ?_ ?_
    · rw [hp, hreport]
      intro next hnext
      obtain ⟨packet, hpacket, hnext⟩ := List.mem_filterMap.mp hnext
      exact ends packet hpacket next hnext
    · have hmul := Nat.mul_le_mul_left n hlength
      rw [Nat.succ_mul] at htimes
      rw [List.length_drop]
      omega

theorem Stuck.endsWithin (h : d.Stuck) {times : List Nat} (hempty : (d.after times).packets = []) :
    ∃ n, ∀ packet ∈ d.packets, EndsWithin d.report? n packet := by
  induction times generalizing d with
  | nil => exact ⟨0, List.eq_nil_iff_forall_not_mem.mp hempty⟩
  | cons now rest ih =>
    cases hp : d.packets with
    | nil => exact ⟨0, fun packet hpacket => absurd hpacket List.not_mem_nil⟩
    | cons first left =>
      obtain ⟨delivery, -, hstep⟩ := h.step_cons hp now
      obtain ⟨hstuck, hreport, -⟩ := h.step now
      obtain ⟨n, hends⟩ := ih hstuck hempty
      rw [hreport, hstep] at hends
      obtain ⟨hleft, hnext⟩ := List.forall_mem_append.mp hends
      refine ⟨n + 1, List.forall_mem_cons.mpr ⟨fun next hsome => ?_, fun packet hpacket => ?_⟩⟩
      · exact hnext next (Option.mem_toList.mpr hsome)
      · exact (hleft packet hpacket).succ

theorem ownRecords_line {c : Telemetry.Client} (whole : c.sampleRate = 1) (plain : c.Plain) {n : ℕ}
    (small : n < 2 ^ 64) : ownRecords (c.line (ownMetricsDropped n)).toUTF8.toList = 1 := by
  obtain ⟨m, hm⟩ := Telemetry.readAll_counter plain whole "internal.metrics_dropped" (by decide)
    (by simp) (by decide) small Intake.ownRules none
  rw [ownRecords, ownMetricsDropped, hm]
  rfl

-- A report is a record that is lost like the ones it tells of, so there is another one.
theorem Stuck.not_endsWithin (h : d.Stuck) (plain : d.client.Plain) {packet : List UInt8}
    (lost : 0 < lostRecords d.delivery packet) (small : lostRecords d.delivery packet < 2 ^ 64)
    (n : ℕ) : ¬ EndsWithin d.report? n packet := by
  induction n generalizing packet with
  | zero => exact id
  | succ n ih =>
    intro ends
    have hbusy : d.delivery.dispatcher.queues ≠ [] := by
      intro idle
      rw [lostRecords, if_pos idle] at lost
      exact absurd lost (Nat.lt_irrefl 0)
    have hnext : lostRecords d.delivery
        (d.client.line (ownMetricsDropped (lostRecords d.delivery packet))).toUTF8.toList = 1 := by
      rw [lostRecords, if_neg hbusy, ownRecords_line h.whole plain small]
    refine ih ?_ ?_ (ends _ (if_pos lost))
    · rw [hnext]
      exact Nat.one_pos
    · rw [hnext]
      norm_num

theorem lostRecords_lt (d : Delivery Binary64) {packet : List UInt8}
    (h : packet.length < 2 ^ 63) : lostRecords d packet < 2 ^ 64 := by
  have hrecords := Intake.ownRecords_le packet
  unfold lostRecords
  split <;> omega

theorem Stuck.empties_iff (h : d.Stuck) (plain : d.client.Plain)
    (small : ∀ packet ∈ d.packets, packet.length < 2 ^ 63) :
    (∃ times, (d.after times).packets = []) ↔
      ∀ packet ∈ d.packets, lostRecords d.delivery packet = 0 := by
  constructor
  · rintro ⟨times, hempty⟩ packet hpacket
    obtain ⟨n, hends⟩ := h.endsWithin hempty
    by_contra lost
    exact h.not_endsWithin plain (Nat.pos_of_ne_zero lost)
      (lostRecords_lt d.delivery (small packet hpacket)) n (hends packet hpacket)
  · intro unlost
    refine ⟨List.replicate d.packets.length 0, h.packets_after_eq_nil (n := 1) ?_ ?_⟩
    · intro packet hpacket next hnext
      rw [report?, unlost packet hpacket] at hnext
      exact absurd hnext (by simp)
    · rw [List.length_replicate, Nat.one_mul]

end Drain

open Drain (EndsWithin)

-- What becomes of the channel: it never gets longer, every round turns its packets into the
-- reports of them, and it runs empty just if no packet has reports without end. A client that
-- keeps to its part of a line writes such reports of every record.
theorem channel_holds_reports (d : Drain) (h : d.Stuck) :
    (∀ times, (d.after times).packets.length ≤ d.packets.length) ∧
    (∀ times, times.length = d.packets.length →
      (d.after times).packets = d.packets.filterMap d.report?) ∧
    (∀ n, (∀ packet ∈ d.packets, EndsWithin d.report? n packet) →
      ∀ times, n * d.packets.length ≤ times.length → (d.after times).packets = []) ∧
    (∀ times, (d.after times).packets = [] →
      ∃ n, ∀ packet ∈ d.packets, EndsWithin d.report? n packet) ∧
    (d.client.Plain → (∀ packet ∈ d.packets, packet.length < 2 ^ 63) →
      ((∃ times, (d.after times).packets = []) ↔
        ∀ packet ∈ d.packets, lostRecords d.delivery packet = 0)) := by
  refine ⟨fun times => (h.after times).2.2, fun times htimes => ?_,
    fun n ends times htimes => h.packets_after_eq_nil ends htimes,
    fun times hempty => h.endsWithin hempty, h.empties_iff⟩
  have hround := h.packets_after (List.append_nil d.packets).symm htimes
  rwa [List.nil_append] at hround

def stopped : Drain where
  delivery := { dispatcher := { queues := [{ capacity := 1, isOpen := false }] } }
  client := {}
  capacity := 3
  packets := ["statsd.a:1|c\nstatsd.b:1|c".toUTF8.toList, [], "statsd.c:1|c".toUTF8.toList]

theorem stopped_holds_reports :
    stopped.Stuck ∧ stopped.client.Plain ∧
    (stopped.after [0, 0, 0]).packets = ["internal.metrics_dropped:2|c".toUTF8.toList,
      "internal.metrics_dropped:1|c".toUTF8.toList] ∧
    ∀ times, (stopped.after times).packets ≠ [] := by
  have hstuck : stopped.Stuck := ⟨by decide, rfl, by decide⟩
  have hplain : stopped.client.Plain := ⟨by simp [stopped], by decide, by simp [stopped]⟩
  obtain ⟨-, hround, -, -, hempties⟩ := channel_holds_reports stopped hstuck
  refine ⟨hstuck, hplain, (hround [0, 0, 0] rfl).trans (by decide +kernel), fun times hempty => ?_⟩
  have hlost := (hempties hplain (by decide +kernel)).mp ⟨times, hempty⟩
  exact absurd hlost (by decide +kernel)

def crowded : Drain where
  delivery :=
    { dispatcher :=
        { queues := [{ capacity := 1, items := [{ events := [{ title := "deploy", text := "" }] }] }] } }
  client := {}
  capacity := 1
  packets := ["internal.metrics_dropped:1|c".toUTF8.toList]

-- There is one report after the other, as long as the queue stays full.
theorem reports_go_round : crowded.Stuck ∧ ∀ times, (crowded.after times).packets ≠ [] := by
  have hstuck : crowded.Stuck := ⟨by decide, rfl, by decide⟩
  have hplain : crowded.client.Plain := ⟨by simp [crowded], by decide, by simp [crowded]⟩
  refine ⟨hstuck, fun times hempty => ?_⟩
  have hlost := (hstuck.empties_iff hplain (by decide +kernel)).mp ⟨times, hempty⟩
  exact absurd hlost (by decide +kernel)

end StatsDaemon.Pipeline
