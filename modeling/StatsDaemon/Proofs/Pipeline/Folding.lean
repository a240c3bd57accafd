import Mathlib
import StatsDaemon.Proofs.Pipeline.Amount
import StatsDaemon.Worker

namespace StatsDaemon.Worker

variable {α : Type} [ExactNumber α]

structure Folded (w : Worker α) (metrics : List (KeyedMetric α)) (now : Nat) (next : Worker α) :
    Prop where
  expiry : next.shard.expiry = w.shard.expiry
  sound : Shard.Sound next.shard.entries
  seen : ∀ e ∈ next.shard.entries, e ∈ w.shard.entries ∨ e.lastSeen = now
  amount : ∀ x, next.shard.amount x = w.shard.amount x + (metrics.map (·.amount x)).sum

theorem Folded.refl (w : Worker α) (now : Nat) (hs : Shard.Sound w.shard.entries) :
    Folded w [] now w :=
  ⟨rfl, hs, fun _ he => .inl he, by simp⟩

theorem Folded.trans {w middle next : Worker α} {metrics more : List (KeyedMetric α)} {now : Nat}
    (h : Folded w metrics now middle) (hnext : Folded middle more now next) :
    Folded w (metrics ++ more) now next := by
  refine ⟨hnext.expiry.trans h.expiry, hnext.sound, fun e he => ?_, fun x => ?_⟩
  · rcases hnext.seen e he with he | hnow
    · exact h.seen e he
    · exact .inr hnow
  · rw [hnext.amount, h.amount, List.map_append, List.sum_append, add_assoc]

theorem addMetric_folded (w : Worker α) (m : KeyedMetric α) (now : Nat) (hm : m.Coherent)
    (hs : Shard.Sound w.shard.entries) : Folded w [m] now (w.addMetric m now).1 := by
  obtain ⟨merged, hmerged⟩ := Shard.mergeEntries_ok m now w.shard.entries hm hs.kinds
  have hadd : (w.addMetric m now).1 = { w with shard := { w.shard with entries := merged } } := by
    simp only [addMetric, Shard.merge, hmerged, Except.map]
  rw [hadd]
  refine ⟨rfl, Shard.mergeEntries_sound m now _ merged hm hs hmerged, fun e he => ?_, fun x => ?_⟩
  · rcases Shard.mergeEntries_cases m now _ merged hmerged with
      ⟨before, y, after, a, hw, -, -, -, rfl⟩ | ⟨-, rfl⟩
    · simp only [List.mem_append, List.mem_cons] at he
      rcases he with he | rfl | he
      · exact .inl (by simp [hw, he])
      · exact .inr rfl
      · exact .inl (by simp [hw, he])
    · rcases List.mem_append.mp he with he | he
      · exact .inl he
      · rw [List.mem_singleton.mp he]
        exact .inr rfl
  · rw [List.map_singleton, List.sum_singleton]
    exact Shard.mergeEntries_amount m now _ merged x hmerged

theorem addEvent_folded (w : Worker α) (event : Event) (now : Nat)
    (hs : Shard.Sound w.shard.entries) : Folded w [] now (w.addEvent event).1 := by
  have hentries : (w.addEvent event).1.shard.entries = w.shard.entries ∧
      (w.addEvent event).1.shard.expiry = w.shard.expiry := by
    simp only [addEvent, Shard.addEvent]
    split <;> rename_i h <;> split at h <;> cases h <;> exact ⟨rfl, rfl⟩
  refine ⟨hentries.2, hentries.1 ▸ hs, fun e he => .inl (hentries.1 ▸ he), fun x => ?_⟩
  rw [List.map_nil, List.sum_nil, add_zero, Shard.amount, hentries.1, Shard.amount]

def Folds (now : Nat) (w : Worker α) (metrics : List (KeyedMetric α)) (next : Worker α) : Prop :=
  (∀ m ∈ metrics, m.Coherent) → Shard.Sound w.shard.entries → Folded w metrics now next

theorem Folds.trans {w middle next : Worker α} {metrics more : List (KeyedMetric α)} {now : Nat}
    (h : Folds now w metrics middle) (hnext : Folds now middle more next) :
    Folds now w (metrics ++ more) next := by
  intro hm hs
  obtain ⟨hmetrics, hmore⟩ := List.forall_mem_append.mp hm
  have hfirst := h hmetrics hs
  exact hfirst.trans (hnext hmore hfirst.sound)

theorem addMetric_folds (now : Nat) (w : Worker α) (m : KeyedMetric α) :
    Folds now w [m] (w.addMetric m now).1 :=
  fun hm hs => w.addMetric_folded m now (hm m List.mem_cons_self) hs

theorem addEvent_folds (now : Nat) (w : Worker α) (event : Event) :
    Folds now w [] (w.addEvent event).1 :=
  fun _ hs => w.addEvent_folded event now hs

theorem handleShare_folded (w : Worker α) (share : Pipeline.Share α) (now : Nat)
    (hm : ∀ m ∈ share.metrics, m.Coherent) (hs : Shard.Sound w.shard.entries) :
    Folded w share.metrics now (w.handleShare share now).1 :=
  handleShare_of (R := Folds now) (fun w _ => .refl w now) Folds.trans (addMetric_folds now)
    (addEvent_folds now) w share hm hs

theorem handleShares_folded (w : Worker α) (shares : List (Pipeline.Share α)) (now : Nat)
    (hm : ∀ share ∈ shares, ∀ m ∈ share.metrics, m.Coherent) (hs : Shard.Sound w.shard.entries) :
    Folded w (shares.flatMap Pipeline.Share.metrics) now (w.handleShares shares now).1 :=
  handleShares_of (R := Folds now) (fun w _ => .refl w now) Folds.trans (addMetric_folds now)
    (addEvent_folds now) w shares (List.forall_mem_flatMap.mpr hm) hs

theorem sum_shares (shares : List (Pipeline.Share α)) (x : Series) :
    ((shares.flatMap Pipeline.Share.metrics).map (·.amount x)).sum =
      (shares.map (·.amount x)).sum := by
  induction shares with
  | nil => rfl
  | cons share rest ih =>
    rw [List.flatMap_cons, List.map_append, List.sum_append, ih, List.map_cons, List.sum_cons]
    rfl

end StatsDaemon.Worker
