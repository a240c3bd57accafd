import StatsDaemon.Proofs.Shard.Scan

namespace StatsDaemon

theorem ExpiryIntervals.isIdle_mono (expiry : ExpiryIntervals) {kind : Kind}
    {lastSeen before now : Nat} (hle : before ≤ now)
    (h : expiry.isIdle kind lastSeen before = true) : expiry.isIdle kind lastSeen now = true := by
  simp only [isIdle, Bool.and_eq_true, decide_eq_true_eq] at h ⊢
  exact ⟨h.1, by omega⟩

theorem ExpiryIntervals.isIdle_eq_false_iff (expiry : ExpiryIntervals) (kind : Kind)
    (lastSeen now : Nat) :
    expiry.isIdle kind lastSeen now = false ↔
      (expiry.get kind ≠ 0 → now ≤ lastSeen + expiry.get kind) := by
  simp only [isIdle, Bool.and_eq_false_iff, bne_eq_false_iff_eq, decide_eq_false_iff_not]
  omega

namespace Shard

variable {α : Type}

structure Passed (s : Shard α) (begun : Nat) : Prop where
  cursor_le : s.cursor ≤ s.entries.length
  fresh : ∀ e ∈ s.entries.take s.cursor, s.isIdle begun e = false

theorem passed_of_zero (s : Shard α) (begun : Nat) (h : s.cursor = 0) : s.Passed begun :=
  ⟨by omega, by simp [h]⟩

theorem length_swapRemove {β : Type} (items : List β) (i : Nat) (h : i < items.length) :
    (swapRemove items i).length = items.length - 1 := by
  have hsome := List.getElem?_eq_getElem h
  have hperm := (swapRemove_perm items i items[i] hsome).length_eq
  rw [List.length_cons] at hperm
  omega

theorem take_swapRemove {β : Type} (items : List β) (i : Nat) (h : i < items.length) :
    (swapRemove items i).take i = items.take i := by
  have hne : items ≠ [] := List.ne_nil_of_length_pos (by omega)
  rw [swapRemove, List.getLast?_eq_some_getLast hne]
  dsimp only
  rw [List.dropLast_eq_take, List.take_take, List.length_set, Nat.min_eq_left (by omega),
    List.take_set_of_le (Nat.le_refl i)]

theorem Passed.scan {s : Shard α} {begun now : Nat} (h : s.Passed begun) (hnow : begun ≤ now)
    (fuel removed : Nat) : (s.scan now fuel removed).1.Passed begun := by
  induction fuel generalizing s removed with
  | zero => exact h
  | succ fuel ih =>
    unfold Shard.scan
    split
    · exact h
    · rename_i e he
      obtain ⟨hlt, hget⟩ := List.getElem?_eq_some_iff.mp he
      split
      · -- The last entry comes to the cursor, and is still to be looked at.
        refine ih (s := { s with entries := swapRemove s.entries s.cursor }) ⟨?_, ?_⟩ (removed + 1)
        · simp only [length_swapRemove _ _ hlt]
          omega
        · simp only [take_swapRemove _ _ hlt]
          exact h.fresh
      · rename_i hbusy
        refine ih (s := { s with cursor := s.cursor + 1 }) ⟨hlt, fun x hx => ?_⟩ removed
        simp only [List.take_add_one, he, Option.toList_some, List.mem_append,
          List.mem_singleton] at hx
        rcases hx with hx | rfl
        · exact h.fresh x hx
        · exact Bool.eq_false_iff.mpr fun hidle =>
            hbusy (s.expiry.isIdle_mono hnow hidle)

theorem rest_scan (s : Shard α) (now fuel removed : Nat) :
    (s.scan now fuel removed).1.entries.length - (s.scan now fuel removed).1.cursor =
      s.entries.length - s.cursor - fuel := by
  induction fuel generalizing s removed with
  | zero => rfl
  | succ fuel ih =>
    unfold scan
    split
    · rename_i hnone
      have hle := List.getElem?_eq_none_iff.mp hnone
      dsimp only
      omega
    · rename_i e he
      obtain ⟨hlt, -⟩ := List.getElem?_eq_some_iff.mp he
      split
      · rw [ih]
        simp only [length_swapRemove _ _ hlt]
        omega
      · rw [ih]
        dsimp only
        omega

theorem expireChunk_finished_iff (s : Shard α) (now chunk : Nat) :
    (s.expireChunk now chunk).2.finished = true ↔
      s.entries.length ≤ s.cursor + max chunk 1 := by
  have hrest := rest_scan s now (max chunk 1) 0
  simp only [expireChunk, decide_eq_true_eq]
  omega

theorem expireChunk_of_unfinished (s : Shard α) (now chunk : Nat)
    (h : (s.expireChunk now chunk).2.finished = false) :
    (s.expireChunk now chunk).1 = (s.scan now (max chunk 1) 0).1 := by
  simp only [expireChunk] at h ⊢
  rw [if_neg (by simp [h])]

theorem expireChunk_of_finished (s : Shard α) (now chunk : Nat)
    (h : (s.expireChunk now chunk).2.finished = true) :
    (s.expireChunk now chunk).1 = { (s.scan now (max chunk 1) 0).1 with cursor := 0 } := by
  simp only [expireChunk] at h ⊢
  rw [if_pos h]

theorem rest_expireChunk (s : Shard α) (now chunk : Nat)
    (h : (s.expireChunk now chunk).2.finished = false) :
    (s.expireChunk now chunk).1.entries.length - (s.expireChunk now chunk).1.cursor =
      s.entries.length - s.cursor - max chunk 1 := by
  rw [expireChunk_of_unfinished s now chunk h]
  exact rest_scan s now (max chunk 1) 0

theorem Passed.expireChunk {s : Shard α} {begun now : Nat} (h : s.Passed begun)
    (hnow : begun ≤ now) (chunk : Nat) : (s.expireChunk now chunk).1.Passed begun := by
  have hscan := h.scan hnow (max chunk 1) 0
  unfold Shard.expireChunk
  dsimp only
  split
  · exact passed_of_zero _ begun rfl
  · exact hscan

-- The cursor of a finished scan was behind all entries, and is back at the first one.
theorem Passed.finished {s : Shard α} {begun now chunk : Nat} (h : s.Passed begun)
    (hnow : begun ≤ now) (hfinished : (s.expireChunk now chunk).2.finished = true) :
    (s.expireChunk now chunk).1.cursor = 0 ∧
      ∀ e ∈ (s.expireChunk now chunk).1.entries, s.isIdle begun e = false := by
  obtain ⟨gone, hscanned, -⟩ := scan_scanned s now (max chunk 1) 0
  have hscan := h.scan hnow (max chunk 1) 0
  have hend : (s.scan now (max chunk 1) 0).1.entries.length ≤
      (s.scan now (max chunk 1) 0).1.cursor := by
    simpa [Shard.expireChunk] using hfinished
  rw [expireChunk_of_finished s now chunk hfinished]
  refine ⟨rfl, fun e he => ?_⟩
  have hfresh := hscan.fresh e (by rw [List.take_of_length_le hend]; exact he)
  rwa [isIdle, hscanned.expiry] at hfresh

variable [Number α]

theorem Passed.merge {s t : Shard α} {begun now : Nat} (h : s.Passed begun) (hnow : begun ≤ now)
    (m : KeyedMetric α) (hm : s.merge m now = .ok t) : t.Passed begun := by
  obtain ⟨entries, hentries, rfl⟩ := merge_eq_ok s t m now hm
  rcases mergeEntries_cases m now s.entries entries hentries with
    ⟨before, e, after, a, hs, -, -, -, rfl⟩ | ⟨-, rfl⟩
  · have hlength := h.cursor_le
    rw [hs] at hlength
    refine ⟨by simpa using hlength, fun x hx => ?_⟩
    -- The entry that is changed has just been seen, wherever the cursor is.
    have hcases : x ∈ s.entries.take s.cursor ∨
        x = { e with aggregate := a, lastSeen := now } := by
      simp only [hs, List.take_append, List.mem_append] at hx ⊢
      rcases hx with hx | hx
      · exact .inl (.inl hx)
      · cases hn : s.cursor - before.length with
        | zero => simp [hn] at hx
        | succ n =>
          rw [hn, List.take_succ_cons, List.mem_cons] at hx
          rcases hx with rfl | hx
          · exact .inr rfl
          · exact .inl (.inr (by rw [List.take_succ_cons]; exact List.mem_cons_of_mem _ hx))
    rcases hcases with hx | rfl
    · exact h.fresh x hx
    · rw [isIdle, ExpiryIntervals.isIdle_eq_false_iff]
      dsimp only
      omega
  · refine ⟨?_, fun x hx => ?_⟩
    · have hle := h.cursor_le
      simp only [List.length_append]
      omega
    · rw [List.take_append_of_le_length h.cursor_le] at hx
      exact h.fresh x hx

end Shard

end StatsDaemon
