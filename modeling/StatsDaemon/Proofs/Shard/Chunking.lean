import StatsDaemon.Binary64
import StatsDaemon.Proofs.Shard.Cursor
import Mathlib.Algebra.Order.Floor.Div
import Mathlib.Data.Nat.Find

namespace StatsDaemon.Shard

variable {α : Type}

def look? (s : Shard α) (now : Nat) : Option (Entry α × Shard α) :=
  s.entries[s.cursor]?.map fun e =>
    (e, if s.isIdle now e then { s with entries := swapRemove s.entries s.cursor }
      else { s with cursor := s.cursor + 1 })

def looked (s : Shard α) (now : Nat) : Nat → List (Entry α)
  | 0 => []
  | fuel + 1 =>
    match s.look? now with
    | none => []
    | some (e, next) => e :: next.looked now fuel

-- A scan is one look after another, and counts the idle entries among those that it looks at.
theorem scan_succ (s : Shard α) (now fuel removed : Nat) :
    s.scan now (fuel + 1) removed =
      match s.look? now with
      | none => (s, removed)
      | some (e, next) => next.scan now fuel (removed + if s.isIdle now e then 1 else 0) := by
  rw [scan, look?]
  cases s.entries[s.cursor]? with
  | none => rfl
  | some e =>
    dsimp only [Option.map_some]
    split <;> rfl

theorem look?_eq_none_iff (s : Shard α) (now : Nat) :
    s.look? now = none ↔ s.entries.length ≤ s.cursor := by
  rw [look?, Option.map_eq_none_iff, List.getElem?_eq_none_iff]

theorem perm_of_look? {s next : Shard α} {now : Nat} {e : Entry α}
    (h : s.look? now = some (e, next)) :
    (e :: next.entries.drop next.cursor).Perm (s.entries.drop s.cursor) ∧
      next.expiry = s.expiry := by
  obtain ⟨x, hx, heq⟩ := Option.map_eq_some_iff.mp h
  obtain ⟨rfl, hnext⟩ := Prod.mk.inj heq
  obtain ⟨hlt, hget⟩ := List.getElem?_eq_some_iff.mp hx
  split at hnext
  · subst hnext
    refine ⟨?_, rfl⟩
    have hperm := swapRemove_perm s.entries s.cursor x hx
    rw [← List.take_append_drop s.cursor (swapRemove s.entries s.cursor),
      take_swapRemove _ _ hlt] at hperm
    conv at hperm => rhs; rw [← List.take_append_drop s.cursor s.entries]
    exact (List.perm_append_left_iff _).mp (List.perm_middle.trans hperm)
  · subst hnext
    rw [List.drop_eq_getElem_cons hlt, hget]
    exact ⟨.refl _, rfl⟩

theorem scan_add (s : Shard α) (now first second removed : Nat) :
    s.scan now (first + second) removed =
      (s.scan now first removed).1.scan now second (s.scan now first removed).2 := by
  induction first generalizing s removed with
  | zero => rw [Nat.zero_add]; rfl
  | succ first ih =>
    rw [Nat.succ_add, scan_succ, scan_succ]
    cases hlook : s.look? now with
    | some p => exact ih _ _
    | none =>
      cases second with
      | zero => rfl
      | succ second =>
        dsimp only
        rw [scan_succ, hlook]

theorem shard_scan (s : Shard α) (now fuel removed : Nat) :
    (s.scan now fuel removed).1 = (s.scan now fuel 0).1 := by
  induction fuel generalizing s removed with
  | zero => rfl
  | succ fuel ih =>
    rw [scan_succ, scan_succ]
    cases s.look? now with
    | none => rfl
    | some p => exact (ih _ _).trans (ih _ _).symm

theorem removed_scan (s : Shard α) (now fuel removed : Nat) :
    (s.scan now fuel removed).2 = removed + (s.looked now fuel).countP (s.isIdle now) := by
  induction fuel generalizing s removed with
  | zero => rfl
  | succ fuel ih =>
    rw [scan_succ, looked]
    cases hlook : s.look? now with
    | none => rfl
    | some p =>
      have hidle : p.2.isIdle now = s.isIdle now := by
        funext e
        rw [isIdle, (perm_of_look? hlook).2, isIdle]
      obtain ⟨x, -, hx⟩ := Option.map_eq_some_iff.mp hlook
      dsimp only
      rw [ih, List.countP_cons, hidle, Nat.add_assoc, Nat.add_comm (List.countP _ _)]

theorem looked_add (s : Shard α) (now first second : Nat) :
    s.looked now (first + second) =
      s.looked now first ++ (s.scan now first 0).1.looked now second := by
  induction first generalizing s with
  | zero => rw [Nat.zero_add]; rfl
  | succ first ih =>
    rw [Nat.succ_add, looked, looked, scan_succ]
    cases hlook : s.look? now with
    | some p =>
      dsimp only
      rw [ih, shard_scan _ _ _ (0 + _)]
      rfl
    | none =>
      cases second with
      | zero => rfl
      | succ second => simp only [looked, hlook, List.append_nil]

theorem length_looked_le (s : Shard α) (now fuel : Nat) : (s.looked now fuel).length ≤ fuel := by
  induction fuel generalizing s with
  | zero => exact Nat.le_refl 0
  | succ fuel ih =>
    rw [looked]
    cases s.look? now with
    | none => exact Nat.zero_le _
    | some p => exact Nat.succ_le_succ (ih p.2)

theorem looked_perm (s : Shard α) (now fuel : Nat) (h : s.entries.length ≤ s.cursor + fuel) :
    (s.looked now fuel).Perm (s.entries.drop s.cursor) := by
  induction fuel generalizing s with
  | zero =>
    rw [List.drop_eq_nil_of_le (by omega)]
    exact .refl _
  | succ fuel ih =>
    rw [looked]
    cases hlook : s.look? now with
    | none => rw [List.drop_eq_nil_of_le ((s.look?_eq_none_iff now).mp hlook)]
    | some p =>
      obtain ⟨hperm, -⟩ := perm_of_look? hlook
      have hlength := hperm.length_eq
      rw [List.length_cons, List.length_drop, List.length_drop] at hlength
      exact ((ih p.2 (by omega)).cons p.1).trans hperm

theorem scan_of_le (s : Shard α) (now removed : Nat) {fuel : Nat}
    (h : s.entries.length ≤ s.cursor + fuel) :
    s.scan now fuel removed = s.scan now (s.entries.length - s.cursor) removed := by
  obtain ⟨more, rfl⟩ := Nat.exists_eq_add_of_le (show s.entries.length - s.cursor ≤ fuel by omega)
  have hrest := s.rest_scan now (s.entries.length - s.cursor) removed
  rw [scan_add]
  generalize s.scan now (s.entries.length - s.cursor) removed = scanned at hrest ⊢
  cases more with
  | zero => rfl
  | succ more =>
    rw [scan_succ, (scanned.1.look?_eq_none_iff now).mpr (by omega)]

-- The shard after so many steps, which take chunks of these sizes.
def chunked (s : Shard α) (now : Nat) (sizes : Nat → Nat) : Nat → Shard α
  | 0 => s
  | n + 1 => ((s.chunked now sizes n).expireChunk now (sizes n)).1

def chunkStep (s : Shard α) (now : Nat) (sizes : Nat → Nat) (n : Nat) : ExpireStep :=
  ((s.chunked now sizes n).expireChunk now (sizes n)).2

def chunkLooked (s : Shard α) (now : Nat) (sizes : Nat → Nat) (n : Nat) : List (Entry α) :=
  (s.chunked now sizes n).looked now (max (sizes n) 1)

def looks (sizes : Nat → Nat) (n : Nat) : Nat :=
  ((List.range n).map fun i => max (sizes i) 1).sum

theorem looks_succ (sizes : Nat → Nat) (n : Nat) :
    looks sizes (n + 1) = looks sizes n + max (sizes n) 1 := by
  simp [looks, List.range_succ]

theorem le_looks (sizes : Nat → Nat) (n : Nat) : n ≤ looks sizes n := by
  induction n with
  | zero => exact Nat.zero_le _
  | succ n ih =>
    rw [looks_succ]
    omega

theorem looks_const (chunk n : Nat) : looks (fun _ => chunk) n = n * max chunk 1 := by
  simp [looks, List.map_const']

section Steps

variable (s : Shard α) (now : Nat) (sizes : Nat → Nat)

theorem expiry_chunked (n : Nat) : (s.chunked now sizes n).expiry = s.expiry := by
  induction n with
  | zero => rfl
  | succ n ih =>
    obtain ⟨gone, hscanned, -⟩ := expireChunk_scanned (s.chunked now sizes n) now (sizes n)
    exact hscanned.expiry.trans ih

theorem removed_chunkStep (n : Nat) :
    (s.chunkStep now sizes n).removed = (s.chunkLooked now sizes n).countP (s.isIdle now) := by
  have hidle : (s.chunked now sizes n).isIdle now = s.isIdle now := by
    funext e
    rw [isIdle, expiry_chunked, isIdle]
  have hremoved := removed_scan (s.chunked now sizes n) now (max (sizes n) 1) 0
  rwa [Nat.zero_add, hidle] at hremoved

theorem sum_removed (n : Nat) :
    ((List.range n).map fun i => (s.chunkStep now sizes i).removed).sum =
      ((List.range n).flatMap (s.chunkLooked now sizes)).countP (s.isIdle now) := by
  rw [List.countP_flatMap]
  exact congrArg List.sum (List.map_congr_left fun i _ => s.removed_chunkStep now sizes i)

variable {s now sizes} {n : Nat}

-- Steps that are not finished come to one scan.
theorem chunked_eq_scan (h : ∀ i < n, (s.chunkStep now sizes i).finished = false) :
    s.chunked now sizes n = (s.scan now (looks sizes n) 0).1 := by
  induction n with
  | zero => rfl
  | succ n ih =>
    have hbefore := ih fun i hi => h i (Nat.lt_succ_of_lt hi)
    calc s.chunked now sizes (n + 1)
        = ((s.chunked now sizes n).scan now (max (sizes n) 1) 0).1 :=
          expireChunk_of_unfinished _ now (sizes n) (h n (Nat.lt_succ_self n))
      _ = (s.scan now (looks sizes (n + 1)) 0).1 := by
          rw [hbefore, looks_succ, scan_add, shard_scan _ _ _ (Prod.snd _)]

theorem flatMap_chunkLooked (h : ∀ i < n, (s.chunkStep now sizes i).finished = false) :
    (List.range (n + 1)).flatMap (s.chunkLooked now sizes) =
      s.looked now (looks sizes (n + 1)) := by
  induction n with
  | zero => simp [chunkLooked, chunked, looks]
  | succ n ih =>
    have hbefore := ih fun i hi => h i (Nat.lt_succ_of_lt hi)
    rw [List.range_succ, List.flatMap_append, hbefore, looks_succ sizes (n + 1), looked_add,
      ← chunked_eq_scan h]
    simp [chunkLooked]

theorem chunkStep_finished_iff (h : ∀ i < n, (s.chunkStep now sizes i).finished = false) :
    (s.chunkStep now sizes n).finished = true ↔
      s.entries.length ≤ s.cursor + looks sizes (n + 1) := by
  have hrest := s.rest_scan now (looks sizes n) 0
  rw [← chunked_eq_scan h] at hrest
  rw [chunkStep, expireChunk_finished_iff, looks_succ]
  omega

theorem unfinished_of_lt (h : ∀ i < n, ¬ s.entries.length ≤ s.cursor + looks sizes (i + 1)) :
    ∀ i < n, (s.chunkStep now sizes i).finished = false := by
  induction n with
  | zero => exact fun i hi => absurd hi (Nat.not_lt_zero i)
  | succ n ih =>
    have hbefore := ih fun i hi => h i (Nat.lt_succ_of_lt hi)
    intro i hi
    rcases Nat.lt_succ_iff_lt_or_eq.mp hi with hi | rfl
    · exact hbefore i hi
    · exact Bool.eq_false_iff.mpr fun hfinished =>
        h i (Nat.lt_succ_self i) ((chunkStep_finished_iff hbefore).mp hfinished)

theorem chunked_eq_expireChunk (h : ∀ i < n, (s.chunkStep now sizes i).finished = false)
    (hfinished : (s.chunkStep now sizes n).finished = true) {chunk : Nat}
    (hchunk : s.entries.length ≤ s.cursor + max chunk 1) :
    s.chunked now sizes (n + 1) = (s.expireChunk now chunk).1 := by
  have hsingle := (s.expireChunk_finished_iff now chunk).mpr hchunk
  have hlooks := (chunkStep_finished_iff h).mp hfinished
  calc s.chunked now sizes (n + 1)
      = { ((s.chunked now sizes n).scan now (max (sizes n) 1) 0).1 with cursor := 0 } :=
        expireChunk_of_finished _ now (sizes n) hfinished
    _ = { (s.scan now (looks sizes (n + 1)) 0).1 with cursor := 0 } := by
        rw [chunked_eq_scan h, looks_succ, scan_add, shard_scan _ _ _ (Prod.snd _)]
    _ = { (s.scan now (max chunk 1) 0).1 with cursor := 0 } := by
        rw [scan_of_le s now 0 hlooks, scan_of_le s now 0 hchunk]
    _ = (s.expireChunk now chunk).1 := (expireChunk_of_finished s now chunk hsingle).symm

end Steps

structure ScansThrough (s : Shard α) (now : Nat) (sizes : Nat → Nat) (last : Nat) : Prop where
  unfinished : ∀ i < last, (s.chunkStep now sizes i).finished = false
  finished : (s.chunkStep now sizes last).finished = true
  -- One step whose chunk has room for all entries does the same.
  alike : ∀ chunk, s.entries.length ≤ chunk →
    s.chunked now sizes (last + 1) = (s.expireChunk now chunk).1 ∧
      ((List.range (last + 1)).map fun i => (s.chunkStep now sizes i).removed).sum =
        (s.expireChunk now chunk).2.removed
  kept : (s.chunked now sizes (last + 1)).entries.Perm
    (s.entries.filter fun e => !s.isIdle now e)
  -- A step looks at no more entries than its chunk has room for, and removes the idle ones; in all
  -- steps together every entry is looked at once.
  bounded : ∀ i, (s.chunkLooked now sizes i).length ≤ max (sizes i) 1
  removed : ∀ i, (s.chunkStep now sizes i).removed =
    (s.chunkLooked now sizes i).countP (s.isIdle now)
  once : ((List.range (last + 1)).flatMap (s.chunkLooked now sizes)).Perm s.entries

theorem kept_of_finished (s : Shard α) (h : s.cursor = 0) (now chunk : Nat)
    (hchunk : s.entries.length ≤ chunk) :
    (s.expireChunk now chunk).1.entries.Perm (s.entries.filter fun e => !s.isIdle now e) := by
  have hfinished := (s.expireChunk_finished_iff now chunk).mpr (by omega)
  obtain ⟨-, hfresh⟩ := (passed_of_zero s now h).finished (Nat.le_refl now) hfinished
  obtain ⟨gone, hscanned, -⟩ := s.expireChunk_scanned now chunk
  have hgone : gone.filter (fun e => !s.isIdle now e) = [] :=
    List.filter_eq_nil_iff.mpr fun e he => by simp [hscanned.idle e he]
  have hkept : (s.expireChunk now chunk).1.entries.filter (fun e => !s.isIdle now e) =
      (s.expireChunk now chunk).1.entries :=
    List.filter_eq_self.mpr fun e he => by simp [hfresh e he]
  have hperm := hscanned.entries.filter fun e => !s.isIdle now e
  rwa [List.filter_append, hgone, List.nil_append, hkept] at hperm

theorem scansThrough_of_first (s : Shard α) (h : s.cursor = 0) (now : Nat) (sizes : Nat → Nat)
    {last : Nat} (hbefore : ∀ i < last, ¬ s.entries.length ≤ looks sizes (i + 1))
    (hlast : s.entries.length ≤ looks sizes (last + 1)) : s.ScansThrough now sizes last := by
  have hunfinished : ∀ i < last, (s.chunkStep now sizes i).finished = false :=
    unfinished_of_lt fun i hi => by simpa [h] using hbefore i hi
  have hfinished : (s.chunkStep now sizes last).finished = true :=
    (chunkStep_finished_iff hunfinished).mpr (by simpa [h] using hlast)
  have halike {chunk : Nat} (hchunk : s.entries.length ≤ chunk) :
      s.chunked now sizes (last + 1) = (s.expireChunk now chunk).1 :=
    chunked_eq_expireChunk hunfinished hfinished (by omega)
  have honce := s.looked_perm now (looks sizes (last + 1)) (by simpa [h] using hlast)
  rw [h, List.drop_zero] at honce
  refine ⟨hunfinished, hfinished, fun chunk hchunk => ⟨halike hchunk, ?_⟩, ?_,
    fun i => length_looked_le _ now _, s.removed_chunkStep now sizes, ?_⟩
  · have hall := s.looked_perm now (max chunk 1) (by omega)
    rw [h, List.drop_zero] at hall
    rw [sum_removed, flatMap_chunkLooked hunfinished, honce.countP_eq, ← hall.countP_eq,
      expireChunk]
    simp [removed_scan]
  · rw [halike (Nat.le_refl _)]
    exact kept_of_finished s h now _ (Nat.le_refl _)
  · rw [flatMap_chunkLooked hunfinished]
    exact honce

theorem succ_eq_ceilDiv {length size last : Nat} (hsize : 0 < size)
    (hbefore : ∀ i < last, ¬ length ≤ (i + 1) * size) (hlast : length ≤ (last + 1) * size) :
    last + 1 = max 1 (length ⌈/⌉ size) := by
  have hle : length ⌈/⌉ size ≤ last + 1 :=
    (ceilDiv_le_iff_le_mul hsize).mpr (Nat.mul_comm _ _ ▸ hlast)
  cases last with
  | zero => omega
  | succ last =>
    have hlt : ¬ length ⌈/⌉ size ≤ last + 1 := fun h =>
      hbefore last (Nat.lt_succ_self last)
        (Nat.mul_comm _ _ ▸ (ceilDiv_le_iff_le_mul hsize).mp h)
    omega

-- However a scan is divided into chunks, it does what a single step does; and with chunks of one
-- size it takes as many steps as there are chunks in the shard, and at least one.
theorem chunks_scan_alike (s : Shard α) (h : s.cursor = 0) (now : Nat) (sizes : Nat → Nat) :
    ∃ last, s.ScansThrough now sizes last ∧
      ∀ chunk, (∀ i, sizes i = chunk) →
        last + 1 = max 1 (s.entries.length ⌈/⌉ max 1 chunk) := by
  have hends : ∃ n, s.entries.length ≤ looks sizes (n + 1) :=
    ⟨s.entries.length, (Nat.le_succ _).trans (le_looks sizes _)⟩
  have hbefore : ∀ i < Nat.find hends, ¬ s.entries.length ≤ looks sizes (i + 1) :=
    fun i hi => Nat.find_min hends hi
  refine ⟨Nat.find hends, scansThrough_of_first s h now sizes hbefore (Nat.find_spec hends),
    fun chunk hsizes => ?_⟩
  have hlooks : ∀ n, looks sizes n = n * max 1 chunk := fun n => by
    rw [funext hsizes, looks_const, Nat.max_comm]
  exact succ_eq_ceilDiv (by omega) (fun i hi => hlooks (i + 1) ▸ hbefore i hi)
    (hlooks _ ▸ Nat.find_spec hends)

def refreshed : Shard Binary64 :=
  let gauge (name : String) (lastSeen : Nat) : Entry Binary64 :=
    ⟨.of .gauge name .empty, .gauge 1, lastSeen⟩
  { entries := [gauge "m0" 0, gauge "m1" 5000, gauge "m2" 0, gauge "m3" 0, gauge "m4" 0]
    events := [], maxEvents := 2, expiry := ⟨10000, 10000, 10000, 10000⟩, cursor := 0 }

theorem refreshed_scanned_alike :
    refreshed.cursor = 0 ∧
      (∀ i, (fun _ => 2 : Nat → Nat) i = 2) ∧
      (refreshed.chunked 11000 (fun _ => 2) 3).entries.map (·.key.name) = ["m1"] ∧
      ∃ last, refreshed.ScansThrough 11000 (fun _ => 2) last ∧ last + 1 = 3 := by
  obtain ⟨last, hscan, hcount⟩ := chunks_scan_alike refreshed rfl 11000 fun _ => 2
  exact ⟨rfl, fun _ => rfl, by decide +kernel, last, hscan, hcount 2 fun _ => rfl⟩

end StatsDaemon.Shard
