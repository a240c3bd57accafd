import StatsDaemon.Snapshot
import Mathlib.Data.List.Nodup
import Mathlib.Data.String.Basic
import Mathlib.Tactic.Order

namespace StatsDaemon

namespace Series

def key (x : Series) (kind : Kind) : Key :=
  .of kind x.name x.tags

theorem key_series (k : Key) : k.series.key k.kind = k := by
  obtain ⟨kind, name, tags, hash, rfl⟩ := k
  rfl

theorem key_eq_iff (k : Key) (x : Series) (kind : Kind) :
    k = x.key kind ↔ k.kind = kind ∧ k.series = x := by
  constructor
  · rintro rfl
    exact ⟨rfl, rfl⟩
  · rintro ⟨rfl, rfl⟩
    exact (key_series k).symm

theorem le_iff (s t : Series) :
    s.le t = true ↔ s.name < t.name ∨ s.name = t.name ∧ s.tags.items ≤ t.tags.items := by
  have htags : (!t.tags.lt s.tags) = true ↔ s.tags.items ≤ t.tags.items := by
    rw [Tags.lt, Bool.not_eq_true', decide_eq_false_iff_not]
    exact not_lt
  unfold le
  split
  · rename_i hlt
    simp [hlt]
  · rename_i hge
    split
    · rename_i hgt
      simp [hge, hgt.ne']
    · rename_i hle
      have heq : s.name = t.name := by order
      rw [htags]
      simp [heq]

theorem le_trans (s t u : Series) (hst : s.le t = true) (htu : t.le u = true) :
    s.le u = true := by
  rw [le_iff] at *
  rcases hst with hst | ⟨hst, hst'⟩
  · rcases htu with htu | ⟨htu, -⟩
    · exact .inl (by order)
    · exact .inl (by order)
  · rcases htu with htu | ⟨htu, htu'⟩
    · exact .inl (by order)
    · exact .inr ⟨by order, by order⟩

theorem le_total (s t : Series) : (s.le t || t.le s) = true := by
  rw [Bool.or_eq_true, le_iff, le_iff]
  rcases lt_trichotomy s.name t.name with hlt | heq | hgt
  · exact .inl (.inl hlt)
  · rcases Std.le_total (a := s.tags.items) (b := t.tags.items) with hle | hge
    · exact .inl (.inr ⟨heq, hle⟩)
    · exact .inr (.inr ⟨heq.symm, hge⟩)
  · exact .inr (.inl hgt)

theorem le_antisymm (s t : Series) (hst : s.le t = true) (hts : t.le s = true) : s = t := by
  rw [le_iff] at hst hts
  obtain ⟨name, ⟨items, hitems⟩⟩ := s
  obtain ⟨name', ⟨items', hitems'⟩⟩ := t
  dsimp only at hst hts
  have hname : name = name' := by
    rcases hst with hst | ⟨heq, -⟩
    · rcases hts with hts | ⟨heq, -⟩
      · exact absurd hts (by order)
      · exact heq.symm
    · exact heq
  subst hname
  have htags : items = items' := by
    rcases hst with hst | ⟨-, hle⟩
    · exact absurd hst (lt_irrefl _)
    · rcases hts with hts | ⟨-, hge⟩
      · exact absurd hts (lt_irrefl _)
      · order
  subst htags
  rfl

end Series

theorem nodup_readings {β γ κ : Type} (identity : β → κ) (series : γ → Series) (key : Series → κ)
    (read : β → Option γ) (items : List β) (hread : ∀ x ∈ items, ∀ r, read x = some r →
      identity x = key (series r)) (h : (items.map identity).Nodup) :
    ((items.filterMap read).map series).Nodup := by
  rw [List.Nodup, List.pairwise_map, List.pairwise_filterMap]
  refine (List.pairwise_map.mp h).imp_of_mem fun {x y} hx hy hne r hr t ht heq => hne ?_
  rw [hread x hx r hr, hread y hy t ht, heq]

structure Snapshot.Once {α : Type} (s : Snapshot α) : Prop where
  counters : (s.counters.map CounterReading.series).Nodup
  gauges : (s.gauges.map GaugeReading.series).Nodup
  sets : (s.sets.map SetReading.series).Nodup
  timers : (s.timers.map TimerReading.series).Nodup

end StatsDaemon
