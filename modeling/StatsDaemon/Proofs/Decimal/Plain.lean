import StatsDaemon.Decimal.Layout

namespace StatsDaemon.Decimal

def IsPlain (c : Char) : Prop :=
  c.isDigit = true ∨ c = '.' ∨ c = '-'

def AllDigits (text : List Char) : Prop :=
  ∀ c ∈ text, c.isDigit = true

theorem allDigits_digitsOf (n : Nat) : AllDigits (digitsOf n) :=
  fun _ hc => Nat.isDigit_of_mem_toDigits (by decide) (by decide) hc

theorem allDigits_zeros (n : Nat) : AllDigits (zeros n) := by
  intro c hc
  rw [(List.mem_replicate.mp hc).2]
  rfl

theorem isPlain_of_mem_positionalText (l : Layout) {digits : List Char} (h : AllDigits digits)
    (point : Int) : ∀ c ∈ l.positionalText digits point, IsPlain c := by
  have hdigits : ∀ c ∈ digits, IsPlain c := fun c hc => .inl (h c hc)
  have hzeros : ∀ n, ∀ c ∈ zeros n, IsPlain c := fun n c hc => .inl (allDigits_zeros n c hc)
  have hpoint : IsPlain '.' := .inr (.inl rfl)
  have hzero : IsPlain '0' := .inl (by decide)
  unfold Layout.positionalText
  split
  · simp only [List.forall_mem_append]
    exact ⟨⟨by simp [hzero, hpoint], hzeros _⟩, hdigits⟩
  · split
    · simp only [List.forall_mem_append]
      exact ⟨⟨fun c hc => hdigits c (List.mem_of_mem_take hc), by simp [hpoint]⟩,
        fun c hc => hdigits c (List.mem_of_mem_drop hc)⟩
    · simp only [List.forall_mem_append]
      refine ⟨⟨hdigits, hzeros _⟩, ?_⟩
      split <;> simp [hzero, hpoint]

theorem isPlain_of_mem_render (x : Binary64) (hx : x.isFinite = true) :
    ∀ c ∈ plain.render x, IsPlain c := by
  have hsign : ∀ c ∈ signOf x.isNegative, IsPlain c := by
    unfold signOf
    split <;> simp [IsPlain]
  have hzero : IsPlain '0' := .inl (by decide)
  simp only [Layout.render, Binary64.isNaN_of_isFinite hx, hx, Bool.false_eq_true, if_false,
    Bool.not_true, plain, if_true]
  refine List.forall_mem_append.mpr ⟨hsign, ?_⟩
  split
  · simp [hzero]
  · exact isPlain_of_mem_positionalText _ (allDigits_digitsOf _) _

theorem notMem_render {sep : Char} (hsep : ¬ IsPlain sep) (x : Binary64) (hx : x.isFinite = true) :
    sep ∉ plain.render x :=
  fun hmem => hsep (isPlain_of_mem_render x hx sep hmem)

end StatsDaemon.Decimal
