import StatsDaemon.Proofs.Shard.Entries
import Mathlib.Data.List.Perm.Basic

namespace StatsDaemon.Shard

variable {α : Type}

-- The last item takes the place of the removed one, so nothing else is lost.
theorem swapRemove_perm {β : Type} (items : List β) (i : Nat) (item : β)
    (h : items[i]? = some item) : (item :: swapRemove items i).Perm items := by
  obtain ⟨hi, rfl⟩ := List.getElem?_eq_some_iff.mp h
  obtain ⟨init, last, rfl⟩ : ∃ init last, items = init ++ [last] :=
    ⟨items.dropLast, items.getLast (List.ne_nil_of_length_pos (by omega)),
      (List.dropLast_append_getLast _).symm⟩
  simp only [swapRemove, List.getLast?_concat]
  by_cases hlast : i < init.length
  · have hset : init.set i last = init.take i ++ last :: init.drop (i + 1) := by
      rw [List.set_eq_take_append_cons_drop, if_pos hlast]
    have hinit : init.take i ++ init[i] :: init.drop (i + 1) = init := by
      rw [← List.drop_eq_getElem_cons hlast, List.take_append_drop]
    have hswap : (init[i] :: init.set i last).Perm (last :: init) := by
      rw [hset]
      conv => rhs; rw [← hinit]
      exact (List.perm_middle.cons _).trans
        ((List.Perm.swap _ _ _).trans (List.perm_middle.symm.cons _))
    rw [List.set_append_left _ _ hlast, List.dropLast_concat, List.getElem_append_left hlast]
    exact hswap.trans (List.perm_append_singleton last init).symm
  · have heq : i = init.length := by
      simp only [List.length_append, List.length_singleton] at hi
      omega
    subst heq
    simpa using (List.perm_append_singleton last init).symm

-- What a scan does, of any number of steps: some idle entries leave.
structure Scanned (s : Shard α) (now : Nat) (scanned : Shard α) (gone : List (Entry α)) : Prop where
  entries : (gone ++ scanned.entries).Perm s.entries
  idle : ∀ e ∈ gone, s.isIdle now e = true
  events : scanned.events = s.events
  maxEvents : scanned.maxEvents = s.maxEvents
  expiry : scanned.expiry = s.expiry

theorem scan_scanned (s : Shard α) (now fuel removed : Nat) :
    ∃ gone, Scanned s now (s.scan now fuel removed).1 gone ∧
      (s.scan now fuel removed).2 = removed + gone.length ∧ gone.length ≤ fuel := by
  induction fuel generalizing s removed with
  | zero => exact ⟨[], ⟨by simp [scan], by simp, rfl, rfl, rfl⟩, rfl, Nat.le_refl _⟩
  | succ fuel ih =>
    unfold scan
    split
    · exact ⟨[], ⟨by simp, by simp, rfl, rfl, rfl⟩, rfl, by simp⟩
    · rename_i e he
      split
      · rename_i hidle
        obtain ⟨gone, h, hcount, hle⟩ :=
          ih { s with entries := swapRemove s.entries s.cursor } (removed + 1)
        refine ⟨e :: gone, ⟨?_, ?_, h.events, h.maxEvents, h.expiry⟩, ?_, by simpa using hle⟩
        · exact (h.entries.cons e).trans (swapRemove_perm s.entries s.cursor e he)
        · intro x hx
          rcases List.mem_cons.mp hx with rfl | hx
          · exact hidle
          · exact h.idle x hx
        · rw [hcount, List.length_cons]; omega
      · obtain ⟨gone, h, hcount, hle⟩ := ih { s with cursor := s.cursor + 1 } removed
        exact ⟨gone, ⟨h.entries, h.idle, h.events, h.maxEvents, h.expiry⟩, hcount, by omega⟩

theorem expireChunk_scanned (s : Shard α) (now chunk : Nat) :
    ∃ gone, Scanned s now (s.expireChunk now chunk).1 gone ∧
      (s.expireChunk now chunk).2.removed = gone.length ∧ gone.length ≤ max chunk 1 := by
  obtain ⟨gone, h, hcount, hle⟩ := scan_scanned s now (max chunk 1) 0
  refine ⟨gone, ?_, by simpa [expireChunk] using hcount, hle⟩
  unfold expireChunk
  dsimp only
  split
  · exact ⟨h.entries, h.idle, h.events, h.maxEvents, h.expiry⟩
  · exact h

theorem Scanned.sound {s scanned : Shard α} {now : Nat} {gone : List (Entry α)}
    (h : Scanned s now scanned gone) (hs : Sound s.entries) : Sound scanned.entries :=
  (hs.perm h.entries).sublist (List.sublist_append_right _ _)

end StatsDaemon.Shard
