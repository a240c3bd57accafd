import StatsDaemon.Line.Reader
import StatsDaemon.Proofs.Binary64.Bounds
import StatsDaemon.Proofs.Decimal.RoundTrip

namespace StatsDaemon

def Value.Checked : Value Binary64 → Prop
  | .counter x => x.isFinite = true ∧ ¬ x < 0
  | .gauge x | .timer x => x.isFinite = true
  | .set _ => True

structure Metric.Checked (m : Metric Binary64) : Prop where
  value : m.value.Checked
  rate : 0 < m.sampleRate ∧ m.sampleRate ≤ 1

theorem ok_of_bind {ε β γ : Type} {x : Except ε β} {f : β → Except ε γ} {c : γ}
    (h : (x >>= f) = .ok c) : ∃ b, x = .ok b ∧ f b = .ok c := by
  cases x with
  | error fault => cases h
  | ok b => exact ⟨b, rfl, h⟩

theorem ok_of_map {ε β γ : Type} {x : Except ε β} {f : β → γ} {c : γ} (h : x.map f = .ok c) :
    ∃ b, x = .ok b ∧ f b = c := by
  cases x with
  | error fault => cases h
  | ok b => exact ⟨b, rfl, Except.ok.inj h⟩

namespace Line

theorem isFinite_of_readNumber {text : List Char} {x : Binary64} (h : readNumber text = .ok x) :
    x.isFinite = true := by
  unfold readNumber at h
  split at h
  · split at h
    · cases h
      assumption
    · cases h
  · cases h

theorem checked_of_readValue {kind : Kind} {text : List Char} {value : Value Binary64}
    (h : readValue kind text = .ok value) : value.Checked := by
  cases kind with
  | set =>
    cases h
    trivial
  | counter =>
    obtain ⟨x, hx, h⟩ := ok_of_bind h
    split at h
    · cases h
    · cases h
      exact ⟨isFinite_of_readNumber hx, ‹_›⟩
  | gauge =>
    obtain ⟨x, hx, rfl⟩ := ok_of_map h
    exact isFinite_of_readNumber hx
  | timer =>
    obtain ⟨x, hx, rfl⟩ := ok_of_map h
    exact isFinite_of_readNumber hx

theorem between_of_readRate {text : List Char} {rate : Binary64} (h : readRate text = .ok rate) :
    0 < rate ∧ rate ≤ 1 := by
  unfold readRate at h
  split at h
  · split at h
    · cases h
      assumption
    · cases h
  · cases h

theorem between_of_readField {state next : Binary64 × Tags} {field : List Char}
    (h : readField state field = .ok next) (hstate : 0 < state.1 ∧ state.1 ≤ 1) :
    0 < next.1 ∧ next.1 ≤ 1 := by
  unfold readField at h
  split at h
  · obtain ⟨rate, hrate, rfl⟩ := ok_of_map h
    exact between_of_readRate hrate
  · cases h
    exact hstate
  · cases h
    exact hstate

theorem between_of_fields {fields : List (List Char)} {state next : Binary64 × Tags}
    (h : fields.foldlM readField state = .ok next) (hstate : 0 < state.1 ∧ state.1 ≤ 1) :
    0 < next.1 ∧ next.1 ≤ 1 := by
  induction fields generalizing state with
  | nil =>
    cases h
    exact hstate
  | cons field rest ih =>
    rw [List.foldlM_cons] at h
    obtain ⟨middle, hfield, h⟩ := ok_of_bind h
    exact ih h (between_of_readField hfield hstate)

theorem one_between : (0 : Binary64) < 1 ∧ (1 : Binary64) ≤ 1 := by
  decide +kernel

theorem parts_of_readMetric {rules : Rules} {source : Option String} {line : List Char}
    {m : Metric Binary64} (h : readMetric rules source line = .ok m) :
    ∃ (kind : Kind) (text : List Char) (fields : List (List Char)) (tags : Tags),
      readValue kind text = .ok m.value ∧
      fields.foldlM readField (1, .empty) = .ok (m.sampleRate, tags) ∧ m.source = source := by
  unfold readMetric at h
  split at h
  · cases h
  · split at h
    · cases h
    · split at h
      · cases h
      · dsimp only at h
        obtain ⟨⟨kind, fields⟩, -, h⟩ := ok_of_bind h
        obtain ⟨value, hvalue, h⟩ := ok_of_bind h
        dsimp only at h
        generalize hfields : List.foldlM readField (1, Tags.empty) fields = state at h
        obtain ⟨⟨rate, tags⟩, rfl, h⟩ := ok_of_bind h
        cases h
        exact ⟨kind, _, fields, tags, hvalue, hfields, rfl⟩

theorem checked_of_readMetric {rules : Rules} {source : Option String} {line : List Char}
    {m : Metric Binary64} (h : readMetric rules source line = .ok m) : m.Checked := by
  obtain ⟨kind, text, fields, tags, hvalue, hfields, -⟩ := parts_of_readMetric h
  have hrate := between_of_fields hfields one_between
  exact ⟨checked_of_readValue hvalue, hrate⟩

theorem readMetric_of_read {rules : Rules} {source : Option String} {line : List Char}
    {m : Metric Binary64} (h : read rules source line = .ok (.metric m)) :
    readMetric rules source line = .ok m := by
  unfold read at h
  split at h
  · split at h <;> cases h
  · split at h
    · cases h
    · obtain ⟨metric, hmetric, heq⟩ := ok_of_map h
      cases heq
      exact hmetric

theorem read_of_readAll {rules : Rules} {source : Option String} {data : List UInt8}
    {record : Record} (h : .ok record ∈ readAll rules source data) :
    ∃ line, read rules source line = .ok record := by
  obtain ⟨bytes, -, hbytes⟩ := List.mem_filterMap.mp h
  unfold readBytes at hbytes
  split at hbytes
  · cases hbytes
  · dsimp only at hbytes
    split at hbytes
    · cases hbytes
    · exact ⟨_, Option.some.inj hbytes⟩

theorem checked_of_readAll {rules : Rules} {source : Option String} {data : List UInt8}
    {m : Metric Binary64} (h : .ok (.metric m) ∈ readAll rules source data) : m.Checked := by
  obtain ⟨line, hline⟩ := read_of_readAll h
  exact checked_of_readMetric (readMetric_of_read hline)

theorem isFinite_nearest {n : ℕ} (h : n < 2 ^ 64) : (Decimal.nearest n 0).isFinite = true := by
  unfold Decimal.nearest
  dsimp only
  split
  · decide +kernel
  · rename_i hn
    have hlength : (Nat.toDigits 10 n).length ≤ 20 :=
      (Nat.length_toDigits_le_iff (by norm_num) (by norm_num)).mpr (by omega)
    rw [if_neg (by omega)]
    refine (Binary64.Settles.within (k := 64) (Binary64.settles_ofScientific n) (by norm_num)
      (by norm_num) ?_).isFinite
    rw [Nat.abs_cast]
    exact_mod_cast h.le

-- A machine word with a sign is read as a finite number, without one as a number that is not below
-- zero.
theorem read?_whole {i : ℤ} (h : i.natAbs < 2 ^ 64) :
    ∃ x, Decimal.read? (Decimal.signOf (i < 0) ++ Decimal.digitsOf i.natAbs) = some x ∧
      x.isFinite = true ∧ (0 ≤ i → ¬ x < 0) := by
  have hnearest := isFinite_nearest h
  have hmagnitude : Decimal.readMagnitude (Decimal.digitsOf i.natAbs) =
      some (Decimal.nearest i.natAbs 0) := by
    have hread := Decimal.readMagnitude_whole (Decimal.allDigits_digitsOf i.natAbs)
      Nat.toDigits_ne_nil Decimal.endsDigits_nil (by simp) (rfl : Decimal.readExponent [] = some 0)
    rwa [List.append_nil, Decimal.natOfDigits_digitsOf] at hread
  refine ⟨_, Decimal.read?_signed _ hmagnitude, ?_, fun hnonneg => ?_⟩
  · rw [← Binary64.isFinite_abs, Binary64.abs_withSign, Binary64.isFinite_abs, hnearest]
  · rw [decide_eq_false hnonneg.not_gt]
    exact Binary64.not_lt_of_nonneg (Binary64.nonneg_abs hnearest)
      ((Binary64.isFinite_abs _).trans hnearest)

end Line

end StatsDaemon
