import StatsDaemon.Proofs.Decimal.Plain
import StatsDaemon.Proofs.Decimal.Shortest

namespace StatsDaemon.Decimal

open Binary64

theorem natOfDigits_digitsOf (n : ℕ) : natOfDigits (digitsOf n) = n :=
  Nat.ofDigitChars_ten_toDigits

theorem natOfDigits_zeros_append (n : ℕ) (digits : List Char) :
    natOfDigits (zeros n ++ digits) = natOfDigits digits := by
  change Nat.ofDigitChars 10 (List.replicate n '0' ++ digits) 0 = Nat.ofDigitChars 10 digits 0
  rw [Nat.ofDigitChars_append, Nat.ofDigitChars_replicate_zero, mul_zero]

theorem natOfDigits_append_zeros (n : ℕ) (digits : List Char) :
    natOfDigits (digits ++ zeros n) = natOfDigits digits * 10 ^ n := by
  change Nat.ofDigitChars 10 (digits ++ List.replicate n '0') 0 =
    Nat.ofDigitChars 10 digits 0 * 10 ^ n
  rw [Nat.ofDigitChars_append, Nat.ofDigitChars_replicate_zero, mul_comm]

-- What stands behind digits does not belong to them.
def EndsDigits (rest : List Char) : Prop :=
  ∀ c ∈ rest.head?, c.isDigit = false

theorem takeWhile_digits {digits rest : List Char} (h : AllDigits digits)
    (hrest : EndsDigits rest) : (digits ++ rest).takeWhile Char.isDigit = digits := by
  rw [List.takeWhile_append_of_pos h]
  cases rest with
  | nil => simp
  | cons c rest => simp [hrest c rfl]

theorem dropWhile_digits {digits rest : List Char} (h : AllDigits digits)
    (hrest : EndsDigits rest) : (digits ++ rest).dropWhile Char.isDigit = rest := by
  rw [List.dropWhile_append_of_pos h]
  cases rest with
  | nil => rfl
  | cons c rest => simp [hrest c rfl]

theorem readMagnitude_whole {whole rest : List Char} {exponent : ℤ} (hwhole : AllDigits whole)
    (hne : whole ≠ []) (hrest : EndsDigits rest) (hpoint : rest.head? ≠ some '.')
    (hexponent : readExponent rest = some exponent) :
    readMagnitude (whole ++ rest) = some (nearest (natOfDigits whole) exponent) := by
  unfold readMagnitude
  simp only [takeWhile_digits hwhole hrest, dropWhile_digits hwhole hrest]
  split
  · simp at hpoint
  · simp [hne, hexponent]

theorem readMagnitude_fraction {whole fraction rest : List Char} {exponent : ℤ}
    (hwhole : AllDigits whole) (hne : whole ≠ []) (hfraction : AllDigits fraction)
    (hrest : EndsDigits rest) (hexponent : readExponent rest = some exponent) :
    readMagnitude (whole ++ '.' :: (fraction ++ rest)) =
      some (nearest (natOfDigits (whole ++ fraction)) (exponent - fraction.length)) := by
  have hpoint : EndsDigits ('.' :: (fraction ++ rest)) := by
    intro c hc
    obtain rfl := Option.some.inj hc
    rfl
  unfold readMagnitude
  simp only [takeWhile_digits hwhole hpoint, dropWhile_digits hwhole hpoint,
    takeWhile_digits hfraction hrest, dropWhile_digits hfraction hrest]
  simp [hne, hexponent]

theorem splitSign_digits {text : List Char} (h : ∀ c ∈ text.head?, c.isDigit = true) :
    splitSign text = (false, text) := by
  unfold splitSign
  split
  · exact absurd (h '+' rfl) (by decide)
  · exact absurd (h '-' rfl) (by decide)
  · rfl

theorem head_digits {digits : List Char} (h : AllDigits digits) :
    ∀ c ∈ digits.head?, c.isDigit = true :=
  fun c hc => h c (List.mem_of_mem_head? hc)

theorem readExponent_text (signed : Bool) (exponent : ℤ) :
    readExponent ('e' :: ((if exponent < 0 then ['-'] else if signed then ['+'] else []) ++
      digitsOf exponent.natAbs)) = some exponent := by
  have hdigits := allDigits_digitsOf exponent.natAbs
  have hsplit : splitSign ((if exponent < 0 then ['-'] else if signed then ['+'] else []) ++
      digitsOf exponent.natAbs) = (decide (exponent < 0), digitsOf exponent.natAbs) := by
    by_cases hneg : exponent < 0
    · simp [hneg, splitSign]
    · cases signed with
      | true => simp [hneg, splitSign]
      | false => simp [hneg, splitSign_digits (head_digits hdigits)]
  have hne : (digitsOf exponent.natAbs).isEmpty = false :=
    List.isEmpty_eq_false_iff.mpr Nat.toDigits_ne_nil
  have hall : (digitsOf exponent.natAbs).all Char.isDigit = true := List.all_eq_true.mpr hdigits
  simp only [readExponent, true_or, if_true, hsplit, hne, hall, Bool.not_true, Bool.false_eq_true,
    or_self, if_false, natOfDigits_digitsOf, decide_eq_true_eq, Option.some.injEq]
  split <;> omega

def ReadsAs (text : List Char) (v : ℚ) : Prop :=
  ∃ m e, readMagnitude text = some (nearest m e) ∧ (m : ℚ) * 10 ^ e = v

theorem endsDigits_nil : EndsDigits [] :=
  fun _ hc => nomatch hc

theorem readsAs_fraction {whole fraction rest : List Char} {exponent : ℤ}
    (hwhole : AllDigits whole) (hne : whole ≠ []) (hfraction : AllDigits fraction)
    (hrest : EndsDigits rest) (hexponent : readExponent rest = some exponent) :
    ReadsAs (whole ++ '.' :: (fraction ++ rest))
      (natOfDigits (whole ++ fraction) * 10 ^ (exponent - fraction.length)) :=
  ⟨_, _, readMagnitude_fraction hwhole hne hfraction hrest hexponent, rfl⟩

theorem readsAs_whole {whole rest : List Char} {exponent : ℤ} (hwhole : AllDigits whole)
    (hne : whole ≠ []) (hrest : EndsDigits rest) (hpoint : rest.head? ≠ some '.')
    (hexponent : readExponent rest = some exponent) :
    ReadsAs (whole ++ rest) (natOfDigits whole * 10 ^ exponent) :=
  ⟨_, _, readMagnitude_whole hwhole hne hrest hpoint hexponent, rfl⟩

theorem readsAs_positionalText (l : Layout) {digits : List Char} (h : AllDigits digits)
    (hne : digits ≠ []) (point : ℤ) :
    ReadsAs (l.positionalText digits point)
      (natOfDigits digits * 10 ^ (point - digits.length)) := by
  unfold Layout.positionalText
  -- The point stands before all digits, among them, or behind them.
  split
  · rename_i hpoint
    have hread := readsAs_fraction (allDigits_zeros 1) (List.cons_ne_nil _ _)
      (List.forall_mem_append.mpr ⟨allDigits_zeros (-point).toNat, h⟩) endsDigits_nil rfl
    have hexponent : 0 - ((zeros (-point).toNat ++ digits).length : ℤ) = point - digits.length := by
      simp only [zeros, List.length_append, List.length_replicate]
      omega
    rw [natOfDigits_zeros_append, natOfDigits_zeros_append, hexponent] at hread
    simpa [zeros] using hread
  · split
    · rename_i hpos hlt
      have hwhole : AllDigits (digits.take point.toNat) := fun c hc => h c (List.mem_of_mem_take hc)
      have hfraction : AllDigits (digits.drop point.toNat) :=
        fun c hc => h c (List.mem_of_mem_drop hc)
      have hread := readsAs_fraction hwhole (by simp [hne]; omega) hfraction endsDigits_nil rfl
      have hexponent : 0 - ((digits.drop point.toNat).length : ℤ) = point - digits.length := by
        rw [List.length_drop]
        omega
      rw [List.take_append_drop, hexponent] at hread
      simpa using hread
    · rename_i hpos hge
      have hwhole : AllDigits (digits ++ zeros (point.toNat - digits.length)) :=
        List.forall_mem_append.mpr ⟨h, allDigits_zeros _⟩
      have hexponent : point - (digits.length : ℤ) = (point.toNat - digits.length : ℕ) := by omega
      have hvalue : (natOfDigits (digits ++ zeros (point.toNat - digits.length)) : ℚ) =
          natOfDigits digits * 10 ^ (point - digits.length) := by
        rw [natOfDigits_append_zeros, hexponent]
        push_cast
        rfl
      split
      · have hread := readsAs_fraction hwhole (by simp [hne]) (allDigits_zeros 1) endsDigits_nil rfl
        rw [natOfDigits_append_zeros, Nat.cast_mul, hvalue] at hread
        simpa [zeros] using hread
      · have hread := readsAs_whole hwhole (by simp [hne]) endsDigits_nil (by simp) rfl
        rw [hvalue] at hread
        simpa using hread

theorem readsAs_scientificText (l : Layout) {digits : List Char} (h : AllDigits digits)
    (hne : digits ≠ []) (exponent : ℤ) :
    ReadsAs (l.scientificText digits exponent)
      (natOfDigits digits * 10 ^ (exponent + 1 - digits.length)) := by
  have hexponent := readExponent_text l.signsExponent exponent
  have hmark : ∀ rest : List Char, EndsDigits ('e' :: rest) := by
    intro rest c hc
    obtain rfl := Option.some.inj hc
    rfl
  match digits, hne with
  | [d], _ =>
    have hread := readsAs_whole h (List.cons_ne_nil _ _) (hmark _) (by simp) hexponent
    simpa [Layout.scientificText] using hread
  | d :: first :: rest, _ =>
    obtain ⟨hd, hrest⟩ := List.forall_mem_cons.mp h
    have hwhole : AllDigits [d] := by simpa [AllDigits] using hd
    have hread := readsAs_fraction hwhole (List.cons_ne_nil _ _) hrest (hmark _) hexponent
    have hpoint : exponent - ((first :: rest).length : ℤ) =
        exponent + 1 - ((d :: first :: rest).length : ℤ) := by
      simp only [List.length_cons]
      omega
    rw [hpoint] at hread
    simpa [Layout.scientificText] using hread

def Layout.magnitudeText (l : Layout) (x : Binary64) : List Char :=
  let d := shortest l.tie x
  let digits := digitsOf d.digits
  let exponent : ℤ := d.exponent + digits.length - 1
  if l.positional exponent then l.positionalText digits (exponent + 1)
  else l.scientificText digits exponent

theorem readsAs_magnitudeText (l : Layout) (x : Binary64) :
    ReadsAs (l.magnitudeText x) (shortest l.tie x).value := by
  have hdigits := allDigits_digitsOf (shortest l.tie x).digits
  have hne : digitsOf (shortest l.tie x).digits ≠ [] := Nat.toDigits_ne_nil
  have hvalue : (natOfDigits (digitsOf (shortest l.tie x).digits) : ℚ) *
      10 ^ ((shortest l.tie x).exponent + (digitsOf (shortest l.tie x).digits).length - 1 + 1 -
        (digitsOf (shortest l.tie x).digits).length) = (shortest l.tie x).value := by
    rw [natOfDigits_digitsOf, Digits.value]
    congr 2
    omega
  unfold Layout.magnitudeText
  dsimp only
  split
  · exact hvalue ▸ readsAs_positionalText l hdigits hne _
  · exact hvalue ▸ readsAs_scientificText l hdigits hne _

theorem render_eq (l : Layout) (x : Binary64) (hx : x.isFinite = true) (hzero : x.isZero = false) :
    l.render x = signOf x.isNegative ++ l.magnitudeText x := by
  simp only [Layout.render, isNaN_of_isFinite hx, hx, hzero, Bool.false_eq_true, if_false,
    Bool.not_true]
  rfl

theorem splitSign_magnitude {text : List Char} {y : Binary64} (h : readMagnitude text = some y) :
    splitSign text = (false, text) := by
  unfold splitSign
  split
  · simp [readMagnitude] at h
  · simp [readMagnitude] at h
  · rfl

theorem read?_signed (negative : Bool) {text : List Char} {y : Binary64}
    (h : readMagnitude text = some y) :
    read? (signOf negative ++ text) = some (y.withSign negative) := by
  have hsplit : splitSign (signOf negative ++ text) = (negative, text) := by
    cases negative with
    | false => exact splitSign_magnitude h
    | true => rfl
  simp only [read?, hsplit, h, Option.some_or, Option.map_some]

theorem read?_render (l : Layout) (x : Binary64) (hx : x.isFinite = true) :
    read? (l.render x) = some x := by
  cases hzero : x.isZero with
  | true =>
    have hread : readMagnitude (if l.keepsFraction then ['0', '.', '0'] else ['0']) =
        some x.abs := by
      rw [abs_of_isZero x hzero]
      split <;> rfl
    have hrender : l.render x =
        signOf x.isNegative ++ if l.keepsFraction then ['0', '.', '0'] else ['0'] := by
      simp only [Layout.render, isNaN_of_isFinite hx, hx, hzero, Bool.false_eq_true, if_false,
        Bool.not_true, if_true]
    rw [hrender, read?_signed _ hread, withSign_abs]
  | false =>
    have hc := x.canonical_of_finite hx hzero
    obtain ⟨m, e, hread, hvalue⟩ := readsAs_magnitudeText l x
    have hv : RoundsTo (m * 10 ^ e) x.significand x.unit := hvalue ▸ shortest_roundsTo l.tie x hc
    have hm : m ≠ 0 := by
      rintro rfl
      have hle := hv.pow_le hc
      rw [Nat.cast_zero, zero_mul] at hle
      exact absurd hle (not_le.mpr (zpow_pos two_pos _))
    rw [render_eq l x hx hzero, read?_signed _ hread, nearest_eq x hc hm hv, withSign_abs]

theorem positionalText_head (l : Layout) {digits : List Char} (h : AllDigits digits)
    (hne : digits ≠ []) (point : ℤ) :
    ∃ c rest, l.positionalText digits point = c :: rest ∧ c.isDigit = true := by
  obtain ⟨d, digits, rfl⟩ := List.exists_cons_of_ne_nil hne
  have hd := h d List.mem_cons_self
  unfold Layout.positionalText
  split
  · exact ⟨'0', _, rfl, rfl⟩
  · rename_i hpoint
    split
    · obtain ⟨n, hn⟩ : ∃ n, point.toNat = n + 1 := ⟨point.toNat - 1, by omega⟩
      rw [hn]
      exact ⟨d, _, rfl, hd⟩
    · exact ⟨d, _, rfl, hd⟩

theorem scientificText_head (l : Layout) {digits : List Char} (h : AllDigits digits)
    (hne : digits ≠ []) (exponent : ℤ) :
    ∃ c rest, l.scientificText digits exponent = c :: rest ∧ c.isDigit = true := by
  match digits, hne with
  | [d], _ => exact ⟨d, _, rfl, h d List.mem_cons_self⟩
  | d :: first :: rest, _ => exact ⟨d, _, rfl, h d List.mem_cons_self⟩

theorem render_head (l : Layout) (x : Binary64) (hx : x.isFinite = true) :
    ∃ c rest, l.render x = signOf x.isNegative ++ c :: rest ∧ c.isDigit = true := by
  by_cases hzero : x.isZero = true
  · refine ⟨'0', if l.keepsFraction then ['.', '0'] else [], ?_, rfl⟩
    simp only [Layout.render, isNaN_of_isFinite hx, hx, hzero, Bool.false_eq_true, if_false,
      Bool.not_true, if_true]
    split <;> rfl
  · have hdigits := allDigits_digitsOf (shortest l.tie x).digits
    have hne : digitsOf (shortest l.tie x).digits ≠ [] := Nat.toDigits_ne_nil
    rw [render_eq l x hx (Bool.eq_false_iff.mpr hzero)]
    unfold Layout.magnitudeText
    dsimp only
    split
    · obtain ⟨c, rest, htext, hc⟩ := positionalText_head l hdigits hne _
      exact ⟨c, rest, congrArg _ htext, hc⟩
    · obtain ⟨c, rest, htext, hc⟩ := scientificText_head l hdigits hne _
      exact ⟨c, rest, congrArg _ htext, hc⟩

inductive MagnitudeText (x : Binary64) : List Char → Prop where
  | nan (h : x.isNaN = true) : MagnitudeText x ['N', 'a', 'N']
  | infinity (h : x.abs = Binary64.infinity) : MagnitudeText x ['i', 'n', 'f']
  | finite {c : Char} {rest : List Char} (hplain : ∀ d ∈ c :: rest, IsPlain d)
      (hc : c.isDigit = true) (h : read? (c :: rest) = some x.abs) : MagnitudeText x (c :: rest)

theorem magnitudeText_render (x : Binary64) : MagnitudeText x (plain.render x.abs) := by
  by_cases hnan : x.isNaN = true
  · have hrender : plain.render x.abs = ['N', 'a', 'N'] := if_pos ((isNaN_abs x).trans hnan)
    rw [hrender]
    exact .nan hnan
  rw [Bool.not_eq_true] at hnan
  by_cases hfinite : x.isFinite = true
  · have hx : x.abs.isFinite = true := (isFinite_abs x).trans hfinite
    have hread := read?_render plain x.abs hx
    have hplain := isPlain_of_mem_render x.abs hx
    obtain ⟨c, rest, hrender, hc⟩ := render_head plain x.abs hx
    rw [isNegative_abs] at hrender
    rw [hrender] at hread hplain ⊢
    exact .finite hplain hc hread
  · rw [Bool.not_eq_true] at hfinite
    have hinfinity := abs_eq_infinity hnan hfinite
    rw [hinfinity]
    exact .infinity hinfinity

theorem MagnitudeText.alike {x y : Binary64} {text : List Char} (hx : MagnitudeText x text)
    (hy : MagnitudeText y text) : x.abs = y.abs ∨ x.isNaN = true ∧ y.isNaN = true := by
  cases hx with
  | nan hx =>
    cases hy with
    | nan hy => exact .inr ⟨hx, hy⟩
    | finite _ hc _ => exact absurd hc (by decide)
  | infinity hx =>
    cases hy with
    | infinity hy => exact .inl (hx.trans hy.symm)
    | finite _ hc _ => exact absurd hc (by decide)
  | finite _ hc hx =>
    cases hy with
    | nan _ => exact absurd hc (by decide)
    | infinity _ => exact absurd hc (by decide)
    | finite _ _ hy => exact .inl (Option.some.inj (hx.symm.trans hy))

theorem MagnitudeText.underscore_notMem {x : Binary64} {text : List Char}
    (h : MagnitudeText x text) : '_' ∉ text := by
  cases h with
  | nan _ => decide
  | infinity _ => decide
  | finite hplain _ _ => exact fun hmem => absurd (hplain '_' hmem) (by simp [IsPlain])

end StatsDaemon.Decimal
