import StatsDaemon.Proofs.Exact
import StatsDaemon.Proofs.Shard.Ledger

namespace StatsDaemon

variable {α : Type} [Number α]

omit [Number α] in
theorem Metric.kind_of_key {m : Metric α} {k : Key} (h : m.key = k) : m.value.kind = k.kind := by
  subst h; rfl

namespace Life

theorem gather_concat (first : Bool) (xs : List α) (x : α) (h : first = true → xs ≠ []) :
    gather first (xs ++ [x]) = gather first xs + x := by
  cases first with
  | false => simp [gather]
  | true =>
    cases xs with
    | nil => exact absurd rfl (h rfl)
    | cons y rest => simp [gather]

end Life

-- With exact sums it does not matter where they are cut.
namespace Number.SumsExactly

theorem foldl_add (h : SumsExactly α) (x : α) (xs : List α) :
    xs.foldl (· + ·) x = x + xs.foldl (· + ·) Number.zero := by
  induction xs generalizing x with
  | nil => exact (h.add_zero x).symm
  | cons y rest ih =>
    rw [List.foldl_cons, ih, List.foldl_cons, ih (Number.zero + y), h.zero_add, h.assoc]

theorem gather_eq (h : SumsExactly α) (first : Bool) (xs : List α) :
    Life.gather first xs = xs.foldl (· + ·) Number.zero := by
  cases first with
  | false => rfl
  | true =>
    cases xs with
    | nil => rfl
    | cons x rest => rw [List.foldl_cons, h.zero_add]; rfl

theorem gather_append (h : SumsExactly α) (first second : Bool) (xs ys : List α) :
    Life.gather first (xs ++ ys) = Life.gather first xs + Life.gather second ys := by
  rw [h.gather_eq, h.gather_eq, h.gather_eq, List.foldl_append, h.foldl_add]

end Number.SumsExactly

namespace Life

-- The deltas that were reported add up to what a counter keeps as its total.
def paid (life : Life α) : α :=
  life.deltas.foldl (· + ·) Number.zero

theorem total_eq (life : Life α) : life.total = life.paid + life.delta := by
  simp [total, paid]

theorem paid_close (life : Life α) : life.close.paid = life.total := by
  simp only [paid, total, deltas, delta, close, List.mapIdx_concat]
  congr 3
  cases life.reported <;> rfl

def Holds (life : Life α) : Kind → Aggregate α → Prop
  | .counter, .counter value total => value = life.delta ∧ total = life.paid
  | .gauge, .gauge x => life.gauge? = some x
  | .set, .set members => members.Nodup ∧ ∀ member, member ∈ members ↔ member ∈ life.members
  | .timer, .timer samples count => samples = life.samples ∧ count = life.weight
  | _, _ => False

theorem holds_counter_iff (life : Life α) (a : Aggregate α) :
    life.Holds .counter a ↔ a = .counter life.delta life.paid := by
  cases a <;> simp [Holds]

theorem holds_gauge_iff (life : Life α) (a : Aggregate α) :
    life.Holds .gauge a ↔ ∃ x, a = .gauge x ∧ life.gauge? = some x := by
  cases a <;> simp [Holds]

theorem holds_set_iff (life : Life α) (a : Aggregate α) :
    life.Holds .set a ↔ ∃ members, a = .set members ∧ members.Nodup ∧
      ∀ member, member ∈ members ↔ member ∈ life.members := by
  cases a <;> simp [Holds]

theorem holds_timer_iff (life : Life α) (a : Aggregate α) :
    life.Holds .timer a ↔ a = .timer life.samples life.weight := by
  cases a <;> simp [Holds]

theorem Holds.kind {life : Life α} {k : Kind} {a : Aggregate α} (h : life.Holds k a) :
    a.kind = k := by
  cases k <;> cases a <;> first | rfl | exact h.elim

-- A life that goes on in its window: no window is empty, or it is not the first one.
structure Runs (life : Life α) (k : Key) : Prop where
  own : ∀ m ∈ life.metrics, m.key = k
  begun : life.reported = [] → life.window ≠ []

omit [Number α] in
theorem Runs.kind {life : Life α} {k : Key} (h : life.Runs k) (m : Metric α)
    (hm : m ∈ life.window) : m.value.kind = k.kind :=
  Metric.kind_of_key (h.own m (List.mem_append_right _ hm))

omit [Number α] in
theorem filterMap_window_ne_nil {β : Type} (life : Life α) (f : Metric α → Option β)
    (hw : life.window ≠ []) (hf : ∀ m ∈ life.window, f m ≠ none) :
    life.window.filterMap f ≠ [] := by
  obtain ⟨m, rest, hcons⟩ := List.exists_cons_of_ne_nil hw
  obtain ⟨x, hx⟩ := Option.ne_none_iff_exists'.mp (hf m (by simp [hcons]))
  simp [hcons, hx]

theorem Runs.delta_add {life : Life α} {k : Key} (h : life.Runs k) (hk : k.kind = .counter)
    (m : Metric α) (now : Nat) (x : α) (hx : m.increment? = some x) :
    (life.add m now).delta = life.delta + x := by
  simp only [delta, add, List.filterMap_append, List.filterMap_cons, hx, List.filterMap_nil]
  refine gather_concat _ _ _ fun hfirst => ?_
  refine life.filterMap_window_ne_nil _ (h.begun (List.isEmpty_iff.mp hfirst)) fun y hy => ?_
  have hkind := (h.kind y hy).trans hk
  cases hv : y.value <;> simp_all [Value.kind, Metric.increment?]

theorem Runs.weight_add {life : Life α} {k : Key} (h : life.Runs k) (hk : k.kind = .timer)
    (m : Metric α) (now : Nat) (x : α) (hx : m.weight? = some x) :
    (life.add m now).weight = life.weight + x := by
  simp only [weight, add, List.filterMap_append, List.filterMap_cons, hx, List.filterMap_nil]
  refine gather_concat _ _ _ fun hfirst => ?_
  refine life.filterMap_window_ne_nil _ (h.begun (List.isEmpty_iff.mp hfirst)) fun y hy => ?_
  have hkind := (h.kind y hy).trans hk
  cases hv : y.value <;> simp_all [Value.kind, Metric.weight?]

omit [Number α] in
theorem runs_born (m : Metric α) (now : Nat) : (born m now).Runs m.key :=
  ⟨by simp [metrics, born], by simp [born]⟩

omit [Number α] in
theorem Runs.add {life : Life α} {k : Key} (h : life.Runs k) (m : Metric α) (now : Nat)
    (hm : m.key = k) : (life.add m now).Runs k := by
  refine ⟨fun x hx => ?_, by simp [Life.add]⟩
  simp only [metrics, Life.add, ← List.append_assoc, List.mem_append] at hx
  rcases hx with hx | hx
  · exact h.own x (List.mem_append.mpr hx)
  · exact List.mem_singleton.mp hx ▸ hm

omit [Number α] in
theorem Runs.close {life : Life α} {k : Key} (h : life.Runs k) : life.close.Runs k := by
  refine ⟨?_, by simp [Life.close]⟩
  simpa [metrics, Life.close] using h.own

omit [Number α] in
theorem Runs.members_eq_nil_iff {life : Life α} {k : Key} (h : life.Runs k) (hk : k.kind = .set) :
    life.members = [] ↔ life.window = [] := by
  refine ⟨fun hempty => ?_, fun hw => by simp [members, hw]⟩
  by_contra hw
  refine life.filterMap_window_ne_nil Metric.member? hw (fun m hm => ?_) hempty
  have hkind := (h.kind m hm).trans hk
  cases hv : m.value <;> simp_all [Value.kind, Metric.member?]

omit [Number α] in
theorem Runs.samples_eq_nil_iff {life : Life α} {k : Key} (h : life.Runs k)
    (hk : k.kind = .timer) : life.samples = [] ↔ life.window = [] := by
  refine ⟨fun hempty => ?_, fun hw => by simp [samples, hw]⟩
  by_contra hw
  refine life.filterMap_window_ne_nil Metric.sample? hw (fun m hm => ?_) hempty
  have hkind := (h.kind m hm).trans hk
  cases hv : m.value <;> simp_all [Value.kind, Metric.sample?]

theorem Holds.start (m : Metric α) (now : Nat) :
    (born m now).Holds m.key.kind (.start m.value m.sampleRate) := by
  obtain ⟨name, value, rate, tags, source⟩ := m
  cases value <;>
    simp [Metric.key, Metric.kind, Key.of, Value.kind, Aggregate.start, Holds, delta, paid, deltas,
      gauge?, metrics, members, samples, weight, born, gather, Metric.increment?, Metric.gauge?,
      Metric.member?, Metric.sample?, Metric.weight?]

theorem Holds.insert {life : Life α} {k : Key} {a b : Aggregate α} (h : life.Holds k.kind a)
    (hruns : life.Runs k) (m : Metric α) (now : Nat) (hm : m.key = k)
    (hb : a.insert m.value m.sampleRate = .ok b) : (life.add m now).Holds k.kind b := by
  have hkind := Metric.kind_of_key hm
  -- For each kind only the value of this kind is left, since the identity is one of it.
  cases hk : k.kind with
  | counter =>
    rw [hk, holds_counter_iff] at h
    rw [hk] at hkind
    cases hv : m.value with
    | counter x =>
      simp only [h, hv, Aggregate.insert, Except.ok.injEq] at hb
      rw [holds_counter_iff, ← hb,
        hruns.delta_add hk m now (x / m.sampleRate) (by simp [Metric.increment?, hv])]
      rfl
    | _ => simp [hv, Value.kind] at hkind
  | gauge =>
    rw [hk, holds_gauge_iff] at h
    obtain ⟨y, rfl, -⟩ := h
    rw [hk] at hkind
    cases hv : m.value with
    | gauge x =>
      simp only [hv, Aggregate.insert, Except.ok.injEq] at hb
      refine (holds_gauge_iff _ _).mpr ⟨x, hb.symm, ?_⟩
      simp [gauge?, metrics, add, Metric.gauge?, hv]
    | _ => simp [hv, Value.kind] at hkind
  | set =>
    rw [hk, holds_set_iff] at h
    obtain ⟨known, rfl, hnodup, hmem⟩ := h
    rw [hk] at hkind
    cases hv : m.value with
    | set member =>
      simp only [hv, Aggregate.insert, Except.ok.injEq] at hb
      refine (holds_set_iff _ _).mpr ⟨_, hb.symm, hnodup.insert, fun other => ?_⟩
      simp [members, add, Metric.member?, hv, hmem, or_comm]
    | _ => simp [hv, Value.kind] at hkind
  | timer =>
    rw [hk, holds_timer_iff] at h
    rw [hk] at hkind
    cases hv : m.value with
    | timer x =>
      simp only [h, hv, Aggregate.insert, Except.ok.injEq] at hb
      rw [holds_timer_iff, ← hb,
        hruns.weight_add hk m now (Number.one / m.sampleRate) (by simp [Metric.weight?, hv])]
      simp [samples, add, Metric.sample?, hv]
    | _ => simp [hv, Value.kind] at hkind

theorem Holds.reset {life : Life α} {e : Entry α} {k : Key} (h : life.Holds k.kind e.aggregate)
    (hruns : life.Runs k) : life.close.Holds k.kind e.reset.aggregate := by
  cases hk : k.kind with
  | counter =>
    rw [hk, holds_counter_iff] at h
    rw [holds_counter_iff, paid_close, total_eq]
    simp [Entry.reset, h, delta, close, gather]
  | gauge =>
    rw [hk, holds_gauge_iff] at h
    obtain ⟨x, ha, hx⟩ := h
    refine (holds_gauge_iff _ _).mpr ⟨x, by simp [Entry.reset, ha], ?_⟩
    simpa [gauge?, metrics, close] using hx
  | set =>
    rw [hk, holds_set_iff] at h
    obtain ⟨known, ha, -, -⟩ := h
    exact (holds_set_iff _ _).mpr ⟨[], by simp [Entry.reset, ha], by simp, by simp [members, close]⟩
  | timer =>
    rw [hk, holds_timer_iff] at h
    have hclosed : life.close.samples = [] ∧ life.close.weight = Number.zero := by
      simp [samples, weight, close, gather]
    rw [holds_timer_iff, hclosed.1, hclosed.2]
    by_cases hw : life.window = []
    · have hweight : life.weight = Number.zero := by
        simp only [weight, hw, List.filterMap_nil]
        cases life.reported.isEmpty <;> rfl
      simp [Entry.reset, h, samples, hw, hweight]
    · have hs : life.samples ≠ [] := fun hempty => hw ((hruns.samples_eq_nil_iff hk).mp hempty)
      simp [Entry.reset, h, hs]

end Life

end StatsDaemon
