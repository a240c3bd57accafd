import StatsDaemon.Pipeline.Limiter
import StatsDaemon.Proofs.Exact

namespace StatsDaemon.Pipeline.Limiter

section

variable {α : Type} [Number α]

def after (limiter : Option (Limiter α)) (readings : List Nat) : Option (Limiter α) :=
  readings.foldl (fun l now => (allow l now).1) limiter

def granted : Option (Limiter α) → List Nat → Nat
  | _, [] => 0
  | limiter, now :: rest => (allow limiter now).2.toNat + granted (allow limiter now).1 rest

end

def latest : Nat → List Nat → Nat
  | last, [] => last
  | last, now :: rest => max last (latest now rest)

-- How far readings go back, all steps back together.
def setBack : Nat → List Nat → Nat
  | _, [] => 0
  | last, now :: rest => last - now + setBack now rest

def earned (perMinute milliseconds : Nat) : ℚ :=
  perMinute / 60 * Number.seconds milliseconds

theorem le_latest (last : Nat) (readings : List Nat) : last ≤ latest last readings := by
  cases readings with
  | nil => exact le_rfl
  | cons now rest => exact le_max_left _ _

-- A step forward is a part of the way to the latest reading, and a step back is made up for.
theorem span_cons_le (last now : Nat) (rest : List Nat) :
    now - last + (latest now rest - now + setBack now rest) ≤
      latest last (now :: rest) - last + setBack last (now :: rest) := by
  have := le_latest now rest
  simp only [latest, setBack]
  omega

theorem setBack_eq_zero_iff {last : Nat} {readings : List Nat} :
    setBack last readings = 0 ↔ (last :: readings).Pairwise (· ≤ ·) := by
  rw [← List.isChain_iff_pairwise]
  induction readings generalizing last with
  | nil => simp [setBack]
  | cons now rest ih => simp [setBack, ih, Nat.sub_eq_zero_iff_le]

theorem seconds_eq (milliseconds : Nat) :
    (Number.seconds milliseconds : ℚ) = milliseconds / 1000 := by
  change ((milliseconds / 1000 : ℕ) : ℚ) +
    ((milliseconds % 1000 * 1000000 : ℕ) : ℚ) / ((1000000000 : ℕ) : ℚ) = _
  have hdiv : ((1000 * (milliseconds / 1000) + milliseconds % 1000 : ℕ) : ℚ) = milliseconds := by
    rw [Nat.div_add_mod]
  push_cast at hdiv ⊢
  linarith

theorem earned_add (perMinute m n : Nat) :
    earned perMinute (m + n) = earned perMinute m + earned perMinute n := by
  simp only [earned, seconds_eq]
  push_cast
  ring

theorem earned_mono (perMinute : Nat) {m n : Nat} (h : m ≤ n) :
    earned perMinute m ≤ earned perMinute n := by
  simp only [earned, seconds_eq]
  gcongr

theorem earned_nonneg (perMinute milliseconds : Nat) : 0 ≤ earned perMinute milliseconds := by
  rw [earned, seconds_eq]
  positivity

structure Holds (perMinute : Nat) (l : Limiter ℚ) : Prop where
  capacity : l.capacity = perMinute
  perSecond : l.perSecond = perMinute / 60
  nonneg : 0 ≤ l.tokens
  le : l.tokens ≤ perMinute

theorem holds_of_start? {perMinute now : Nat} {l : Limiter ℚ} (h : start? perMinute now = some l) :
    Holds perMinute l ∧ l.tokens = perMinute ∧ l.lastRefill = now := by
  rw [start?] at h
  split at h
  · cases h
  · cases h
    exact ⟨⟨rfl, rfl, Nat.cast_nonneg perMinute, le_rfl⟩, rfl, rfl⟩

theorem least_eq (x y : ℚ) : least x y = min x y := by
  change (if decide (x ≤ y) = true then x else y) = _
  simp [min_def]

variable {perMinute : Nat} {l : Limiter ℚ}

theorem tokens_refill (h : Holds perMinute l) (now : Nat) :
    (l.refill now).tokens = min (l.tokens + earned perMinute (now - l.lastRefill)) perMinute := by
  rw [refill, least_eq, h.capacity, h.perSecond, earned, mul_comm]

theorem Holds.refill (h : Holds perMinute l) (now : Nat) : Holds perMinute (l.refill now) where
  capacity := h.capacity
  perSecond := h.perSecond
  nonneg := by
    rw [tokens_refill h]
    exact le_min (add_nonneg h.nonneg (earned_nonneg _ _)) (Nat.cast_nonneg perMinute)
  le := by
    rw [tokens_refill h]
    exact min_le_right _ _

theorem take_eq (l : Limiter ℚ) (now : Nat) :
    l.take now =
      if 1 ≤ (l.refill now).tokens then
        ({ l.refill now with tokens := (l.refill now).tokens - 1 }, true)
      else (l.refill now, false) := by
  change (if decide ((1 : ℕ) ≤ (l.refill now).tokens) = true then _ else _) = _
  simp only [decide_eq_true_eq, Nat.cast_one]
  rfl

-- One question: the bucket stays in its bounds, and a token that is taken was there before or is
-- paid for by the time since the last refill.
theorem take_spec (h : Holds perMinute l) (now : Nat) :
    Holds perMinute (l.take now).1 ∧ (l.take now).1.lastRefill = now ∧
      (l.take now).1.tokens + (l.take now).2.toNat ≤
        l.tokens + earned perMinute (now - l.lastRefill) := by
  have hrefill := h.refill now
  have hle : (l.refill now).tokens ≤ l.tokens + earned perMinute (now - l.lastRefill) := by
    rw [tokens_refill h]
    exact min_le_left _ _
  rw [take_eq]
  by_cases htoken : 1 ≤ (l.refill now).tokens
  · rw [if_pos htoken]
    refine ⟨⟨hrefill.capacity, hrefill.perSecond, sub_nonneg.2 htoken, ?_⟩, rfl, ?_⟩
    · exact (sub_le_self _ zero_le_one).trans hrefill.le
    · simpa using hle
  · rw [if_neg htoken]
    exact ⟨hrefill, rfl, by simpa using hle⟩

-- Whatever the readings, the tokens that were taken and those that are left were there at the start
-- or are paid for by the way to the latest reading and what was set back.
theorem granted_add_tokens_le (h : Holds perMinute l) (readings : List Nat) :
    ∃ l', after (some l) readings = some l' ∧ Holds perMinute l' ∧
      (granted (some l) readings : ℚ) + l'.tokens ≤ l.tokens +
        earned perMinute
          (latest l.lastRefill readings - l.lastRefill + setBack l.lastRefill readings) := by
  induction readings generalizing l with
  | nil => exact ⟨l, rfl, h, by simp [granted, earned_nonneg]⟩
  | cons now rest ih =>
    obtain ⟨htake, hlast, hpaid⟩ := take_spec h now
    obtain ⟨l', hl', hholds, hrest⟩ := ih htake
    refine ⟨l', hl', hholds, ?_⟩
    rw [hlast] at hrest
    have hspan := earned_mono perMinute (span_cons_le l.lastRefill now rest)
    rw [earned_add] at hspan
    have hgranted : granted (some l) (now :: rest) =
        (l.take now).2.toNat + granted (some (l.take now).1) rest := rfl
    rw [hgranted]
    push_cast
    linarith

theorem granted_none (readings : List Nat) : granted (none : Option (Limiter ℚ)) readings = 0 := by
  induction readings with
  | nil => rfl
  | cons now rest ih => simpa [granted, allow] using ih

theorem after_none (readings : List Nat) : after (none : Option (Limiter ℚ)) readings = none := by
  induction readings with
  | nil => rfl
  | cons now rest ih => exact ih

theorem granted_start?_le (perMinute created : Nat) (readings : List Nat) :
    (granted (start? perMinute created : Option (Limiter ℚ)) readings : ℚ) ≤
      perMinute + earned perMinute
        (latest created readings - created + setBack created readings) := by
  cases hstart : (start? perMinute created : Option (Limiter ℚ)) with
  | none =>
    rw [granted_none, Nat.cast_zero]
    exact add_nonneg (Nat.cast_nonneg _) (earned_nonneg _ _)
  | some l =>
    obtain ⟨hl, htokens, hlast⟩ := holds_of_start? hstart
    obtain ⟨l', -, hholds, hpaid⟩ := granted_add_tokens_le hl readings
    rw [hlast, htokens] at hpaid
    linarith [hholds.nonneg]

theorem holds_after {perMinute created : Nat} {readings : List Nat} {l : Limiter ℚ}
    (h : after (start? perMinute created) readings = some l) : Holds perMinute l := by
  cases hstart : (start? perMinute created : Option (Limiter ℚ)) with
  | none =>
    rw [hstart, after_none] at h
    cases h
  | some first =>
    obtain ⟨l', hl', hholds, -⟩ := granted_add_tokens_le (holds_of_start? hstart).1 readings
    rw [hstart, hl'] at h
    cases h
    exact hholds

-- However the readings come, what is allowed beyond the tokens of a minute and the time that has
-- passed is what the steps back are worth, and nothing if there are none.
theorem allowed_within_limit (perMinute created : Nat) (readings : List Nat) :
    (granted (start? perMinute created : Option (Limiter ℚ)) readings : ℚ) ≤
        perMinute + earned perMinute
          (latest created readings - created + setBack created readings) ∧
      ((created :: readings).Pairwise (· ≤ ·) →
        (granted (start? perMinute created : Option (Limiter ℚ)) readings : ℚ) ≤
          perMinute + earned perMinute (latest created readings - created)) ∧
      ∀ l : Limiter ℚ, after (start? perMinute created) readings = some l →
        0 ≤ l.tokens ∧ l.tokens ≤ perMinute := by
  have hbound := granted_start?_le perMinute created readings
  refine ⟨hbound, fun hordered => ?_, fun l hl => ?_⟩
  · simpa [setBack_eq_zero_iff.2 hordered] using hbound
  · exact ⟨(holds_after hl).nonneg, (holds_after hl).le⟩

theorem burst_and_refill_within_limit :
    [0, 0, 0, 0, 20000, 31000, 32000].Pairwise (· ≤ ·) ∧
      granted (start? 2 0 : Option (Limiter ℚ)) [0, 0, 0, 20000, 31000, 32000] = 3 ∧
      (3 : ℚ) ≤ 2 + earned 2 32000 := by
  have hordered : [0, 0, 0, 0, 20000, 31000, 32000].Pairwise (· ≤ ·) := by decide
  have hgranted :
      granted (start? 2 0 : Option (Limiter ℚ)) [0, 0, 0, 20000, 31000, 32000] = 3 := by
    decide +kernel
  refine ⟨hordered, hgranted, ?_⟩
  simpa [hgranted, latest] using
    (allowed_within_limit 2 0 [0, 0, 0, 20000, 31000, 32000]).2.1 hordered

-- One line a minute. The second question at 0 is asked after the one at 60000, so the same minute is
-- credited once more, and there are three lines where two are within the limit.
theorem minute_credited_twice :
    ¬ ((granted (start? 1 0 : Option (Limiter ℚ)) [0, 60000, 0, 60000] : ℚ) ≤
      1 + earned 1 (latest 0 [0, 60000, 0, 60000] - 0)) := by
  have hgranted : granted (start? 1 0 : Option (Limiter ℚ)) [0, 60000, 0, 60000] = 3 := by
    decide +kernel
  rw [hgranted, earned, seconds_eq]
  norm_num [latest]

end StatsDaemon.Pipeline.Limiter
