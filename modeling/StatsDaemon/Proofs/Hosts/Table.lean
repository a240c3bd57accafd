import Mathlib
import StatsDaemon.Hosts.Cache

namespace StatsDaemon.Hosts.Cache

variable {c : Cache} {host other : String} {e : CachedHost}

def Distinct (c : Cache) : Prop :=
  (c.entries.map CachedHost.host).Nodup

theorem host_of_find (h : c.find? host = some e) : e.host = host := by
  simpa using List.find?_some h

theorem mem_of_find (h : c.find? host = some e) : e ∈ c.entries :=
  List.mem_of_find?_eq_some h

theorem Distinct.find (h : c.Distinct) (he : e ∈ c.entries) : c.find? e.host = some e := by
  cases hfind : c.find? e.host with
  | none => exact absurd (beq_self_eq_true e.host) (List.find?_eq_none.mp hfind e he)
  | some x =>
    exact congrArg some (List.inj_on_of_nodup_map h (mem_of_find hfind) he (host_of_find hfind))

section Change

variable {f : CachedHost → CachedHost} (hf : ∀ e, (f e).host = e.host)

include hf

theorem hosts_change (c : Cache) (host : String) :
    (c.change host f).entries.map CachedHost.host = c.entries.map CachedHost.host := by
  rw [change, List.map_map]
  refine List.map_congr_left fun e _ => ?_
  rw [Function.comp_apply]
  split
  · exact hf e
  · rfl

theorem find?_change (c : Cache) (host other : String) :
    (c.change host f).find? other =
      if other = host then (c.find? host).map f else c.find? other := by
  have hhost : (fun e => (if e.host == host then f e else e).host == other) =
      fun e : CachedHost => e.host == other := by
    funext e
    split
    · rw [hf]
    · rfl
  rw [find?, change, List.find?_map, Function.comp_def, hhost, ← find?]
  split
  · rename_i heq
    subst heq
    cases hfind : c.find? other with
    | none => rfl
    | some e => simp [host_of_find hfind]
  · rename_i hne
    cases hfind : c.find? other with
    | none => rfl
    | some e => simp [host_of_find hfind, hne]

end Change

theorem cache_apply (c : Cache) (host : String) (tags : Tags) (now : Nat) :
    (c.apply host tags now).1 = c.change host fun e => { e with lastUsed := c.sinceEpoch now } := by
  unfold apply
  split
  · rename_i hnone
    have hsame : c.entries.map (fun e =>
        if e.host == host then { e with lastUsed := c.sinceEpoch now } else e) = c.entries :=
      (List.map_congr_left fun e he => if_neg (List.find?_eq_none.mp hnone e he)).trans
        (List.map_id' _)
    rw [change, hsame]
  · split <;> rfl

theorem found_apply_of_none (h : c.find? host = none) (tags : Tags) (now : Nat) :
    (c.apply host tags now).2 = ⟨.miss, tags, true⟩ := by
  rw [apply, h]

theorem found_apply_of_some (h : c.find? host = some e) (tags : Tags) (now : Nat) :
    (c.apply host tags now).2 =
      match e.tags with
      | some known => ⟨.hit, tags.extend known.items, e.expires ≤ now⟩
      | none => ⟨.negative, tags, e.expires ≤ now⟩ := by
  rw [apply, h]
  cases htags : e.tags <;> simp only [htags]

theorem find?_apply (c : Cache) (host : String) (tags : Tags) (now : Nat) (other : String) :
    (c.apply host tags now).1.find? other =
      if other = host then (c.find? host).map fun e => { e with lastUsed := c.sinceEpoch now }
      else c.find? other := by
  rw [cache_apply, find?_change (by intros; rfl)]

theorem Distinct.apply (h : c.Distinct) (host : String) (tags : Tags) (now : Nat) :
    (c.apply host tags now).1.Distinct := by
  rw [Distinct, cache_apply, hosts_change (by intros; rfl)]
  exact h

theorem find?_insert (c : Cache) (host : String) (tags : Option Tags) (expires now : Nat)
    (other : String) :
    (c.insert host tags expires now).find? other =
      if other = host then
        some ⟨host, tags, expires, ((c.find? host).map CachedHost.lastUsed).getD (c.sinceEpoch now)⟩
      else c.find? other := by
  unfold insert
  split
  · rename_i e hfind
    rw [find?_change (by intros; rfl)]
    refine if_congr Iff.rfl ?_ rfl
    rw [hfind, Option.map_some, Option.map_some, Option.getD_some, host_of_find hfind]
  · rename_i hfind
    rw [hfind, find?, List.find?_append, ← find?]
    split
    · rename_i heq
      simp [heq, hfind]
    · rename_i hne
      have hother : ¬ host = other := fun heq => hne heq.symm
      simp [hother]

theorem Distinct.insert (h : c.Distinct) (tags : Option Tags) (expires now : Nat) :
    (c.insert host tags expires now).Distinct := by
  unfold Cache.insert
  split
  · rw [Distinct, hosts_change (by intros; rfl)]
    exact h
  · rename_i hfind
    rw [Distinct, List.map_append, List.nodup_append_comm]
    refine List.nodup_cons.mpr ⟨?_, h⟩
    simpa using List.find?_eq_none.mp hfind

theorem Distinct.evict (h : c.Distinct) (maxIdle now : Nat) : (c.evict maxIdle now).1.Distinct :=
  h.sublist (List.filter_sublist.map _)

def contents (c : Cache) (host : String) : Option (Option Tags × Nat) :=
  (c.find? host).map fun e => (e.tags, e.expires)

theorem contents_apply (c : Cache) (host : String) (tags : Tags) (now : Nat) (other : String) :
    (c.apply host tags now).1.contents other = c.contents other := by
  rw [contents, contents, find?_apply]
  split
  · rename_i heq
    rw [heq, Option.map_map]
    rfl
  · rfl

theorem contents_insert (c : Cache) (host : String) (tags : Option Tags) (expires now : Nat)
    (other : String) :
    (c.insert host tags expires now).contents other =
      if other = host then some (tags, expires) else c.contents other := by
  rw [contents, contents, find?_insert]
  split <;> rfl

theorem find?_evict (h : c.Distinct) (maxIdle now : Nat) (host : String) :
    (c.evict maxIdle now).1.find? host =
      (c.find? host).filter fun e => c.sinceEpoch now - word maxIdle ≤ e.lastUsed := by
  have hkept := h.evict maxIdle now
  refine Option.ext fun e => ?_
  rw [Option.filter_eq_some_iff]
  constructor
  · intro hfind
    obtain ⟨hmem, hstamp⟩ := List.mem_filter.mp (mem_of_find hfind)
    exact ⟨host_of_find hfind ▸ h.find hmem, hstamp⟩
  · rintro ⟨hfind, hstamp⟩
    exact host_of_find hfind ▸ hkept.find (List.mem_filter.mpr ⟨mem_of_find hfind, hstamp⟩)

end StatsDaemon.Hosts.Cache
