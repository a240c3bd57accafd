import StatsDaemon.Proofs.Shard.Entries

namespace StatsDaemon

variable {α : Type}

inductive Shard.Operation (α : Type) where
  | merge (m : Metric α) (now : Nat)
  | addEvent (e : Event)
  | expire (now chunk : Nat)
  | snapshot (now : Nat)

inductive Shard.Outcome (α : Type) where
  | merged (failure : Option KindMismatch)
  | buffered (accepted : Bool)
  | expired (step : Shard.ExpireStep)
  | reported (s : Snapshot α)

def Shard.perform [Number α] (s : Shard α) : Shard.Operation α → Shard α × Shard.Outcome α
  | .merge m now =>
    match s.merge m.keyed now with
    | .ok s => (s, .merged none)
    | .error mismatch => (s, .merged (some mismatch))
  | .addEvent e =>
    let (s, accepted) := s.addEvent e
    (s, .buffered accepted)
  | .expire now chunk =>
    let (s, step) := s.expireChunk now chunk
    (s, .expired step)
  | .snapshot now =>
    let (s, snapshot) := s.snapshot now
    (s, .reported snapshot)

theorem Shard.perform_merge [Number α] (s : Shard α) (m : Metric α) (now : Nat)
    (hs : Sound s.entries) :
    ∃ entries, mergeEntries m.keyed now s.entries = .ok entries ∧
      s.perform (.merge m now) = ({ s with entries }, .merged none) ∧ Sound entries := by
  obtain ⟨entries, h⟩ := mergeEntries_ok m.keyed now s.entries m.keyed_coherent hs.kinds
  have hmerge : s.merge m.keyed now = .ok { s with entries } := by
    rw [merge, h]
    rfl
  refine ⟨entries, h, by simp only [perform, hmerge], ?_⟩
  exact mergeEntries_sound m.keyed now s.entries entries m.keyed_coherent hs h

end StatsDaemon
