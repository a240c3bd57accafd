import StatsDaemon.Proofs.Shard.Run
import StatsDaemon.Proofs.Snapshot.Merge

namespace StatsDaemon

variable {α : Type} [Number α]

namespace Life

-- One life as it is seen by a first report, by a second one, and by a single report at the end.
inductive Cut : Option (Life α) → Option (Life α) → Option (Life α) → Prop where
  -- The first report comes too early for the identity.
  | late (life : Option (Life α)) : Cut none life life
  | cut (reported : List (List (Metric α))) (window more : List (Metric α)) (seen last : Nat) :
    Cut (some ⟨reported, window, seen⟩) (some ⟨reported ++ [window], more, last⟩)
      (some ⟨reported, window ++ more, last⟩)

omit [Number α] in
theorem foldl_grow_some (life : Life α) (ms : List (Metric α × Nat)) :
    ms.foldl grow (some life) = some ⟨life.reported, life.window ++ ms.map Prod.fst,
      (ms.getLast?.map Prod.snd).getD life.lastSeen⟩ := by
  induction ms generalizing life with
  | nil => simp
  | cons p rest ih =>
    have hlast : ((p :: rest).getLast?.map Prod.snd).getD life.lastSeen =
        (rest.getLast?.map Prod.snd).getD p.2 := by
      rw [List.getLast?_cons]
      cases rest.getLast? <;> rfl
    rw [List.foldl_cons, grow, ih, hlast]
    simp [add]

omit [Number α] in
theorem cut_close (life : Option (Life α)) (ms : List (Metric α × Nat)) :
    Cut life (ms.foldl grow (life.map close)) (ms.foldl grow life) := by
  cases life with
  | none => exact .late _
  | some life =>
    rw [Option.map_some, foldl_grow_some, foldl_grow_some]
    exact .cut life.reported life.window (ms.map Prod.fst) life.lastSeen _

omit [Number α] in
theorem Cut.filter {first second whole : Option (Life α)} (h : Cut first second whole)
    (test : Nat → Bool) (hwhole : whole.filter (fun life => test life.lastSeen) = whole) :
    second.filter (fun life => test life.lastSeen) = second := by
  cases h with
  | late => exact hwhole
  | cut reported window more seen last =>
    simp only [Option.filter_some, ite_eq_left_iff, reduceCtorEq, imp_false, not_not] at hwhole ⊢
    exact hwhole

end Life

omit [Number α] in
theorem foldAll_option {β : Type} (fold : β → β → β) (reading : Option β) :
    foldAll fold ([] ++ reading.toList) = reading.toList := by
  cases reading <;> rfl

namespace Life.Cut

variable {first second whole : Option (Life α)} (h : Cut first second whole) (x : Series)

include h

theorem counters :
    List.Forall₂ (fun r t => r.series = t.series ∧ (Number.SumsExactly α → r = t))
      (foldAll (fun c l => { c with delta := c.delta + l.delta, total := l.total })
        ((first.map (·.counterReading x)).toList ++ (second.map (·.counterReading x)).toList))
      (whole.map (·.counterReading x)).toList := by
  cases h with
  | late =>
    rw [Option.map_none, Option.toList_none, foldAll_option]
    exact List.forall₂_same.mpr fun r _ => ⟨rfl, fun _ => rfl⟩
  | cut reported window more seen last =>
    refine .cons ⟨rfl, fun hexact => ?_⟩ .nil
    have hdelta : (⟨reported, window, seen⟩ : Life α).delta +
        (⟨reported ++ [window], more, last⟩ : Life α).delta =
        (⟨reported, window ++ more, last⟩ : Life α).delta := by
      simp only [delta, List.filterMap_append]
      exact (hexact.gather_append _ _ _ _).symm
    have hpaid : (⟨reported ++ [window], more, last⟩ : Life α).paid =
        (⟨reported, window ++ more, last⟩ : Life α).paid +
          (⟨reported, window, seen⟩ : Life α).delta :=
      (paid_close ⟨reported, window, seen⟩).trans (total_eq _)
    have htotal : (⟨reported ++ [window], more, last⟩ : Life α).total =
        (⟨reported, window ++ more, last⟩ : Life α).total := by
      rw [total_eq, total_eq, ← hdelta, ← hexact.assoc, hpaid]
    simp only [counterReading, Option.map_some, Option.toList_some, ← hdelta, ← htotal]
    rfl

omit [Number α] in
theorem gauges :
    foldAll (fun g l => { g with value := l.value })
      ((first.bind (·.gaugeReading? x)).toList ++ (second.bind (·.gaugeReading? x)).toList) =
    (whole.bind (·.gaugeReading? x)).toList := by
  cases h with
  | late => rw [Option.bind_none, Option.toList_none, foldAll_option]
  | cut reported window more seen last =>
    simp only [Option.bind_some, gaugeReading?]
    have hsame : (⟨reported ++ [window], more, last⟩ : Life α).gauge? =
        (⟨reported, window ++ more, last⟩ : Life α).gauge? := by
      simp [gauge?, metrics]
    rw [hsame]
    cases hfirst : (⟨reported, window, seen⟩ : Life α).gauge? with
    | none => rw [Option.map_none, Option.toList_none, foldAll_option]
    | some value =>
      -- A gauge that has a value keeps having one.
      have hlast : (⟨reported, window ++ more, last⟩ : Life α).gauge? =
          some ((more.filterMap Metric.gauge?).getLast?.getD value) := by
        simp only [gauge?, metrics] at hfirst
        simp only [gauge?, metrics, ← List.append_assoc, List.filterMap_append,
          List.getLast?_append] at hfirst ⊢
        rw [hfirst]
        cases (more.filterMap Metric.gauge?).getLast? <;> rfl
      rw [hlast]
      rfl

omit [Number α] in
-- What is reported only where the window has something: it is in one of the parts, or in both.
theorem windowed {β : Type} (fold : β → β → β) (read? : Life α → Option β) (read : Life α → β)
    (Alike : β → β → Prop)
    (hread : ∀ life, read? life = if life.window.isEmpty then none else some (read life))
    (hlate : ∀ r, Alike r r)
    (hcut : ∀ (reported : List (List (Metric α))) (window more : List (Metric α)) (seen last : Nat),
      let first := read ⟨reported, window, seen⟩
      let second := read ⟨reported ++ [window], more, last⟩
      let whole := read ⟨reported, window ++ more, last⟩
      (window = [] → Alike second whole) ∧ (more = [] → Alike first whole) ∧
        Alike (fold first second) whole) :
    List.Forall₂ Alike (foldAll fold ((first.bind read?).toList ++ (second.bind read?).toList))
      (whole.bind read?).toList := by
  cases h with
  | late =>
    simp only [Option.bind_none, Option.toList_none, foldAll_option]
    exact List.forall₂_same.mpr fun r _ => hlate r
  | cut reported window more seen last =>
    obtain ⟨hwindow, hmore, hboth⟩ := hcut reported window more seen last
    simp only [Option.bind_some, hread]
    cases window with
    | nil =>
      cases more with
      | nil => exact .nil
      | cons m others => exact .cons (hwindow rfl) .nil
    | cons m others =>
      cases more with
      | nil => exact .cons (hmore rfl) .nil
      | cons n others => exact .cons hboth .nil

omit [Number α] in
theorem sets :
    List.Forall₂ (fun r t => r.series = t.series ∧
        t.cardinality ≤ r.cardinality ∧ r.cardinality ≤ 2 * t.cardinality)
      (foldAll (fun t l => { t with cardinality := t.cardinality + l.cardinality })
        ((first.bind (·.setReading? x)).toList ++ (second.bind (·.setReading? x)).toList))
      (whole.bind (·.setReading? x)).toList := by
  refine h.windowed _ (·.setReading? x) (fun life => ⟨x, life.members.toFinset.card⟩) _
    (fun _ => rfl) (fun r => ⟨rfl, by omega, by omega⟩) fun reported window more seen last => ?_
  have hunion : (⟨reported, window ++ more, last⟩ : Life α).members.toFinset =
      (⟨reported, window, seen⟩ : Life α).members.toFinset ∪
        (⟨reported ++ [window], more, last⟩ : Life α).members.toFinset := by
    simp [members]
  refine ⟨?_, ?_, rfl, ?_, ?_⟩
  · rintro rfl
    exact ⟨rfl, Nat.le_refl _, Nat.le_mul_of_pos_left _ Nat.two_pos⟩
  · rintro rfl
    rw [List.append_nil]
    exact ⟨rfl, Nat.le_refl _, Nat.le_mul_of_pos_left _ Nat.two_pos⟩
  · simp only [hunion]
    exact Finset.card_union_le _ _
  · simp only [hunion, Nat.two_mul]
    refine Nat.add_le_add (Finset.card_le_card ?_) (Finset.card_le_card ?_)
    · exact Finset.subset_union_left
    · exact Finset.subset_union_right

theorem timers :
    List.Forall₂ (fun r t => (r.series, r.samples) = (t.series, t.samples) ∧
        (Number.SumsExactly α → r = t))
      (foldAll (fun t l => { t with
          samples := t.samples ++ l.samples, sampledCount := t.sampledCount + l.sampledCount })
        ((first.bind (·.timerReading? x)).toList ++ (second.bind (·.timerReading? x)).toList))
      (whole.bind (·.timerReading? x)).toList := by
  refine h.windowed _ (·.timerReading? x) (fun life => ⟨x, life.samples, life.weight⟩) _
    (fun _ => rfl) (fun r => ⟨rfl, fun _ => rfl⟩) fun reported window more seen last => ?_
  refine ⟨?_, ?_, ?_, fun hexact => ?_⟩
  · rintro rfl
    refine ⟨rfl, fun hexact => ?_⟩
    simp only [samples, weight, hexact.gather_eq, List.nil_append]
  · rintro rfl
    rw [List.append_nil]
    exact ⟨rfl, fun _ => rfl⟩
  · simp only [samples, List.filterMap_append]
  · simp only [samples, weight, List.filterMap_append]
    rw [← hexact.gather_append]

end Life.Cut

end StatsDaemon
