import StatsDaemon.Json.Reader
import StatsDaemon.Json.Writer
import StatsDaemon.Proofs.Decimal.RoundTrip

namespace StatsDaemon.Json

open Decimal (AllDigits EndsDigits digitsOf natOfDigits signOf)

theorem hexValue_hexDigit : ∀ n < 16, hexValue (hexDigit n) = some n := by
  decide

theorem readUnicode_control {n : ℕ} (h : n < 32) (rest : List Char) :
    readUnicode ('0' :: '0' :: hexDigit (n / 16) :: hexDigit (n % 16) :: rest) =
      some (Char.ofNat n, rest) := by
  have hzero : hexValue '0' = some 0 := by decide
  have hhigh := hexValue_hexDigit (n / 16) (by omega)
  have hlow := hexValue_hexDigit (n % 16) (by omega)
  have hhex : readHex4 ('0' :: '0' :: hexDigit (n / 16) :: hexDigit (n % 16) :: rest) =
      some (n, rest) := by
    simp only [readHex4, hzero, hhigh, hlow, Option.bind_eq_bind, Option.bind_some]
    congr 2
    omega
  have hnotHigh : isHighSurrogate n = false := by
    simp only [isHighSurrogate, Bool.and_eq_false_iff, decide_eq_false_iff_not]
    omega
  have hnotLow : isLowSurrogate n = false := by
    simp only [isLowSurrogate, Bool.and_eq_false_iff, decide_eq_false_iff_not]
    omega
  simp only [readUnicode, hhex, hnotHigh, hnotLow, Option.bind_eq_bind, Option.bind_some,
    Bool.false_eq_true, if_false]

theorem readChars_mark {fuel : ℕ} {e : Char} (mark : List Char) {text : List Char}
    (h : readEscape (mark ++ text) = some (e, text)) :
    readChars (fuel + 1) ('\\' :: mark ++ text) =
      (readChars fuel text).map fun (chars, rest) => (e :: chars, rest) := by
  rw [List.cons_append, readChars, if_neg (by decide), if_pos rfl, h, Option.bind_eq_bind,
    Option.bind_some]
  dsimp only
  cases readChars fuel text <;> rfl

theorem readChars_escape (fuel : ℕ) (c : Char) (text : List Char) :
    readChars (fuel + 1) (escape c ++ text) =
      (readChars fuel text).map fun (chars, rest) => (c :: chars, rest) := by
  unfold escape
  split
  · rename_i hquote
    rw [hquote]
    exact readChars_mark ['"'] rfl
  split
  · rename_i hbackslash
    rw [hbackslash]
    exact readChars_mark ['\\'] rfl
  split
  · rename_i hbackspace
    rw [hbackspace]
    exact readChars_mark ['b'] rfl
  split
  · rename_i hfeed
    rw [hfeed]
    exact readChars_mark ['f'] rfl
  split
  · rename_i hbreak
    rw [hbreak]
    exact readChars_mark ['n'] rfl
  split
  · rename_i hreturn
    rw [hreturn]
    exact readChars_mark ['r'] rfl
  split
  · rename_i htab
    rw [htab]
    exact readChars_mark ['t'] rfl
  split
  · rename_i hcontrol
    refine readChars_mark ['u', '0', '0', _, _] ?_
    show readUnicode ('0' :: '0' :: _ :: _ :: text) = _
    rw [readUnicode_control hcontrol, Char.ofNat_toNat]
  · rename_i hquote hbackslash _ _ _ _ _ hcontrol
    rw [List.singleton_append, readChars, if_neg hquote, if_neg hbackslash, if_neg hcontrol]
    cases readChars fuel text <;> rfl

theorem readChars_flatMap (chars rest : List Char) {fuel : ℕ} (h : chars.length < fuel) :
    readChars fuel (chars.flatMap escape ++ '"' :: rest) = some (chars, rest) := by
  induction chars generalizing fuel with
  | nil =>
    obtain ⟨fuel, rfl⟩ : ∃ n, fuel = n + 1 := ⟨fuel - 1, by simp at h; omega⟩
    rw [List.flatMap_nil, List.nil_append, readChars, if_pos rfl]
  | cons c chars ih =>
    obtain ⟨fuel, rfl⟩ : ∃ n, fuel = n + 1 := ⟨fuel - 1, by simp at h; omega⟩
    rw [List.flatMap_cons, List.append_assoc, readChars_escape, ih (by simpa using h)]
    rfl

theorem length_le_flatMap_escape (chars : List Char) :
    chars.length ≤ (chars.flatMap escape).length := by
  have hpos (c : Char) : 1 ≤ (escape c).length := by
    unfold escape
    repeat' split
    all_goals simp
  induction chars with
  | nil => simp
  | cons c chars ih =>
    have := hpos c
    rw [List.flatMap_cons, List.length_append, List.length_cons]
    omega

theorem readString_flatMap (s : String) (rest : List Char) :
    readString (s.toList.flatMap escape ++ '"' :: rest) = some (s, rest) := by
  have hlength := length_le_flatMap_escape s.toList
  rw [readString, readChars_flatMap s.toList rest (by rw [List.length_append]; omega),
    Option.map_some]
  dsimp only
  rw [String.ofList_toList]

-- The parts of a number: the whole digits, those behind the point, and the exponent.
structure Numeral where
  whole : List Char
  fraction : List Char
  exponent : Option ℤ

namespace Numeral

def exponentText (e : ℤ) : List Char :=
  'e' :: ((if e < 0 then ['-'] else ['+']) ++ digitsOf e.natAbs)

def tail (n : Numeral) : List Char :=
  (if n.fraction = [] then [] else '.' :: n.fraction) ++ n.exponent.elim [] exponentText

def text (n : Numeral) : List Char :=
  n.whole ++ n.tail

structure Sound (n : Numeral) : Prop where
  whole : AllDigits n.whole
  -- Zero is the only one with a leading zero.
  lead : n.whole = ['0'] ∨ ∃ c rest, n.whole = c :: rest ∧ c ≠ '0'
  fraction : AllDigits n.fraction

def value? (n : Numeral) (negative : Bool) : Option Json :=
  let whole := natOfDigits n.whole
  if n.fraction.isEmpty && n.exponent.isNone && !(negative && whole == 0) then
    some (ofInt (if negative then -(whole : ℤ) else whole))
  else
    let x := Decimal.nearest (natOfDigits (n.whole ++ n.fraction))
      (n.exponent.getD 0 - n.fraction.length)
    if x.isFinite then some (.real (x.withSign negative)) else none

end Numeral

def Ends (rest : List Char) : Prop :=
  ∀ c ∈ rest.head?, c = ',' ∨ c = ']' ∨ c = '\x7d'

theorem ends_nil : Ends [] :=
  fun _ hc => nomatch hc

theorem ends_cons {c : Char} (h : c = ',' ∨ c = ']' ∨ c = '\x7d') (rest : List Char) :
    Ends (c :: rest) := by
  intro d hd
  obtain rfl := Option.some.inj hd
  exact h

theorem Ends.endsDigits {rest : List Char} (h : Ends rest) : EndsDigits rest := by
  intro c hc
  rcases h c hc with rfl | rfl | rfl <;> rfl

theorem readExponent_ends {rest : List Char} (h : Ends rest) :
    readExponent rest = some (none, rest) := by
  cases rest with
  | nil => rfl
  | cons c rest =>
    have hmark : ¬ (c = 'e' ∨ c = 'E') := by
      rcases h c rfl with rfl | rfl | rfl <;> decide
    exact if_neg hmark

theorem readExponent_exponentText (e : ℤ) {rest : List Char} (h : Ends rest) :
    readExponent (Numeral.exponentText e ++ rest) = some (some e, rest) := by
  have hdigits := Decimal.allDigits_digitsOf e.natAbs
  have hne : (digitsOf e.natAbs).isEmpty = false :=
    List.isEmpty_eq_false_iff.mpr Nat.toDigits_ne_nil
  have hsplit : Decimal.splitSign ((if e < 0 then ['-'] else ['+']) ++ digitsOf e.natAbs ++ rest) =
      (decide (e < 0), digitsOf e.natAbs ++ rest) := by
    by_cases hneg : e < 0
    · rw [if_pos hneg, decide_eq_true hneg]
      rfl
    · rw [if_neg hneg, decide_eq_false hneg]
      rfl
  rw [Numeral.exponentText, List.cons_append, readExponent, if_pos (.inl rfl)]
  simp only [hsplit, Decimal.takeWhile_digits hdigits h.endsDigits,
    Decimal.dropWhile_digits hdigits h.endsDigits, hne, Decimal.natOfDigits_digitsOf,
    Bool.false_eq_true, if_false, decide_eq_true_eq, Option.some.injEq, Prod.mk.injEq, and_true]
  split <;> omega

theorem readExponent_elim (exponent : Option ℤ) {rest : List Char} (h : Ends rest) :
    readExponent (exponent.elim [] Numeral.exponentText ++ rest) = some (exponent, rest) := by
  cases exponent with
  | none => exact readExponent_ends h
  | some e => exact readExponent_exponentText e h

theorem endsDigits_elim (exponent : Option ℤ) {rest : List Char} (h : Ends rest) :
    EndsDigits (exponent.elim [] Numeral.exponentText ++ rest) ∧
      (exponent.elim [] Numeral.exponentText ++ rest).head? ≠ some '.' := by
  cases exponent with
  | none =>
    refine ⟨h.endsDigits, fun hpoint => ?_⟩
    rcases h '.' hpoint with h | h | h <;> exact absurd h (by decide)
  | some e =>
    refine ⟨fun c hc => ?_, fun hpoint => ?_⟩
    · obtain rfl := Option.some.inj hc
      rfl
    · exact absurd (Option.some.inj hpoint) (by decide)

namespace Numeral

variable {n : Numeral} {rest : List Char}

theorem endsDigits_tail (n : Numeral) (h : Ends rest) : EndsDigits (n.tail ++ rest) := by
  unfold tail
  split
  · exact (endsDigits_elim n.exponent h).1
  · intro c hc
    obtain rfl := Option.some.inj hc
    rfl

theorem readWhole_text (hn : n.Sound) (h : Ends rest) :
    readWhole (n.whole ++ (n.tail ++ rest)) = some (n.whole, n.tail ++ rest) := by
  have htail := n.endsDigits_tail h
  rcases hn.lead with hzero | ⟨c, digits, hwhole, hc⟩
  · have hdigit : ((n.tail ++ rest).head?.map Char.isDigit).getD false = false := by
      cases hhead : (n.tail ++ rest).head? with
      | none => rfl
      | some c => exact htail c hhead
    rw [hzero, List.singleton_append, readWhole, hdigit]
    rfl
  · have hdigits : AllDigits (c :: digits) := hwhole ▸ hn.whole
    rw [hwhole, List.cons_append, readWhole.eq_def]
    split
    · rename_i heq
      exact absurd (List.cons.inj heq).1 hc
    · rw [← List.cons_append, Decimal.takeWhile_digits hdigits htail,
        Decimal.dropWhile_digits hdigits htail]
      rfl

theorem readFraction_tail (hn : n.Sound) (h : Ends rest) :
    readFraction (n.tail ++ rest) =
      some (n.fraction, n.exponent.elim [] exponentText ++ rest) := by
  obtain ⟨hdigits, hpoint⟩ := endsDigits_elim n.exponent h
  unfold tail
  split
  · rename_i hfraction
    rw [List.nil_append, hfraction, readFraction.eq_def]
    split
    · rename_i heq
      rw [heq] at hpoint
      exact absurd rfl hpoint
    · rfl
  · rename_i hfraction
    rw [List.append_assoc, List.cons_append, readFraction,
      Decimal.takeWhile_digits hn.fraction hdigits, Decimal.dropWhile_digits hn.fraction hdigits,
      List.isEmpty_eq_false_iff.mpr hfraction]
    rfl

theorem head_text (hn : n.Sound) : ∃ c chars, n.text = c :: chars ∧ c.isDigit = true := by
  obtain ⟨c, digits, hwhole⟩ : ∃ c digits, n.whole = c :: digits := by
    rcases hn.lead with hzero | ⟨c, digits, hwhole, -⟩
    · exact ⟨'0', [], hzero⟩
    · exact ⟨c, digits, hwhole⟩
  refine ⟨c, digits ++ n.tail, by rw [text, hwhole, List.cons_append], hn.whole c ?_⟩
  rw [hwhole]
  exact List.mem_cons_self

theorem cutMinus_signOf (negative : Bool) {text : List Char} (h : text.head? ≠ some '-') :
    (match signOf negative ++ text with
      | '-' :: rest => (true, rest)
      | _ => (false, signOf negative ++ text)) = (negative, text) := by
  cases negative with
  | true => rfl
  | false =>
    simp only [signOf, Bool.false_eq_true, if_false, List.nil_append]
    split
    · exact absurd rfl h
    · rfl

theorem readNumber_text (hn : n.Sound) (negative : Bool) (h : Ends rest) :
    readNumber (signOf negative ++ (n.text ++ rest)) = (n.value? negative).map (·, rest) := by
  obtain ⟨c, chars, htext, hc⟩ := head_text hn
  have hminus : (n.text ++ rest).head? ≠ some '-' := by
    rw [htext, List.cons_append, List.head?_cons]
    intro heq
    rw [Option.some.inj heq] at hc
    cases hc
  have hsign := cutMinus_signOf negative hminus
  rw [readNumber.eq_def]
  split
  rename_i heq
  obtain ⟨rfl, rfl⟩ := Prod.mk.inj (hsign.symm.trans heq)
  rw [text, List.append_assoc, readWhole_text hn h]
  simp only [Option.bind_eq_bind, Option.bind_some, readFraction_tail hn h,
    readExponent_elim n.exponent h]
  rw [value?]
  split
  · rfl
  · dsimp only
    split <;> rfl

end Numeral

def Spells (text : List Char) (value : Json) : Prop :=
  ∃ (n : Numeral) (negative : Bool), n.Sound ∧ text = signOf negative ++ n.text ∧
    n.value? negative = some value

section

variable {text : List Char} {value : Json} (h : Spells text value)

include h

theorem Spells.readNumber {rest : List Char} (hrest : Ends rest) :
    readNumber (text ++ rest) = some (value, rest) := by
  obtain ⟨n, negative, hn, rfl, hvalue⟩ := h
  rw [List.append_assoc, Numeral.readNumber_text hn negative hrest, hvalue]
  rfl

theorem Spells.head : ∃ c chars, text = c :: chars ∧ (c = '-' ∨ c.isDigit = true) := by
  obtain ⟨n, negative, hn, rfl, -⟩ := h
  obtain ⟨c, chars, htext, hc⟩ := Numeral.head_text hn
  cases negative with
  | true => exact ⟨'-', n.text, rfl, .inl rfl⟩
  | false => exact ⟨c, chars, htext, .inr hc⟩

end

theorem head_digitsOf {n : ℕ} (h : n ≠ 0) : ∃ c rest, digitsOf n = c :: rest ∧ c ≠ '0' := by
  induction n using Nat.strong_induction_on with
  | _ n ih =>
    by_cases hlt : n < 10
    · rw [digitsOf, Nat.toDigits_of_lt_base hlt]
      exact ⟨_, [], rfl, fun hzero => h (Nat.digitChar_eq_zero.mp hzero)⟩
    · obtain ⟨c, rest, hdigits, hc⟩ := ih (n / 10) (by omega) (by omega)
      rw [digitsOf] at hdigits
      rw [digitsOf, Nat.toDigits_of_base_le (by norm_num) (by omega), hdigits]
      exact ⟨c, _, rfl, hc⟩

def wholeNumeral (n : ℕ) : Numeral :=
  ⟨digitsOf n, [], none⟩

theorem sound_wholeNumeral (n : ℕ) : (wholeNumeral n).Sound where
  whole := Decimal.allDigits_digitsOf n
  lead := by
    by_cases h : n = 0
    · exact .inl (by rw [h]; rfl)
    · exact .inr (head_digitsOf h)
  fraction := fun _ hc => nomatch hc

theorem spells_writeInt {i : ℤ} (hi : minInteger ≤ i ∧ i ≤ maxNatural) :
    Spells (writeInt i) (.int i) := by
  refine ⟨wholeNumeral i.natAbs, i < 0, sound_wholeNumeral _, ?_, ?_⟩
  · simp [writeInt, wholeNumeral, Numeral.text, Numeral.tail]
  · have hzero : (decide (i < 0) && i.natAbs == 0) = false := by
      simp only [Bool.and_eq_false_iff, decide_eq_false_iff_not, beq_eq_false_iff_ne]
      omega
    have hsigned : (if i < 0 then -(i.natAbs : ℤ) else i.natAbs) = i := by
      split <;> omega
    simp only [Numeral.value?, wholeNumeral, Decimal.natOfDigits_digitsOf, hzero,
      decide_eq_true_eq, hsigned, ofInt, if_pos hi]
    rfl

-- A numeral that is not taken for a whole number.
def Numeral.IsReal (n : Numeral) : Prop :=
  n.fraction ≠ [] ∨ n.exponent ≠ none

theorem Numeral.whole_ne {n : Numeral} (hn : n.Sound) : n.whole ≠ [] := by
  rcases hn.lead with h | ⟨c, rest, h, -⟩ <;> simp [h]

theorem readMagnitude_text {n : Numeral} (hn : n.Sound) :
    Decimal.readMagnitude n.text = some (Decimal.nearest (natOfDigits (n.whole ++ n.fraction))
      (n.exponent.getD 0 - n.fraction.length)) := by
  have hne := Numeral.whole_ne hn
  have hexponent : Decimal.readExponent (n.exponent.elim [] Numeral.exponentText) =
      some (n.exponent.getD 0) := by
    cases n.exponent with
    | none => rfl
    | some e => exact Decimal.readExponent_text true e
  obtain ⟨hdigits, hpoint⟩ := endsDigits_elim n.exponent ends_nil
  rw [List.append_nil] at hdigits hpoint
  by_cases hfraction : n.fraction = []
  · rw [Numeral.text, Numeral.tail, if_pos hfraction, List.nil_append,
      Decimal.readMagnitude_whole hn.whole hne hdigits hpoint hexponent, hfraction]
    simp
  · rw [Numeral.text, Numeral.tail, if_neg hfraction, List.cons_append,
      Decimal.readMagnitude_fraction hn.whole hne hn.fraction hdigits hexponent]

theorem numeral_of_positional {digits : List Char} (h : AllDigits digits) {c : Char}
    {others : List Char} (hdigits : digits = c :: others) (hc : c ≠ '0') (point : ℤ) :
    ∃ n : Numeral, n.Sound ∧ n.IsReal ∧ realLayout.positionalText digits point = n.text := by
  unfold Decimal.Layout.positionalText
  split
  · refine ⟨⟨['0'], Decimal.zeros (-point).toNat ++ digits, none⟩,
      ⟨Decimal.allDigits_zeros 1, .inl rfl,
        List.forall_mem_append.mpr ⟨Decimal.allDigits_zeros _, h⟩⟩, .inl ?_, ?_⟩
    · simp [hdigits]
    · simp [Numeral.text, Numeral.tail, hdigits]
  · rename_i hpoint
    split
    · rename_i hlt
      obtain ⟨k, hk⟩ : ∃ k, point.toNat = k + 1 := ⟨point.toNat - 1, by omega⟩
      have hrest : digits.drop point.toNat ≠ [] := by
        rw [ne_eq, List.drop_eq_nil_iff]
        omega
      refine ⟨⟨digits.take point.toNat, digits.drop point.toNat, none⟩,
        ⟨fun d hd => h d (List.mem_of_mem_take hd), .inr ⟨c, others.take k, ?_, hc⟩,
          fun d hd => h d (List.mem_of_mem_drop hd)⟩, .inl hrest, ?_⟩
      · rw [hk, hdigits, List.take_succ_cons]
      · simp [Numeral.text, Numeral.tail, hrest]
    · refine ⟨⟨digits ++ Decimal.zeros (point.toNat - digits.length), ['0'], none⟩,
        ⟨List.forall_mem_append.mpr ⟨h, Decimal.allDigits_zeros _⟩,
          .inr ⟨c, others ++ Decimal.zeros (point.toNat - digits.length), ?_, hc⟩,
          Decimal.allDigits_zeros 1⟩, .inl (List.cons_ne_nil _ _), ?_⟩
      · rw [hdigits, List.cons_append]
      · simp [Numeral.text, Numeral.tail, realLayout]

theorem numeral_of_scientific {digits : List Char} (h : AllDigits digits) {c : Char}
    {others : List Char} (hdigits : digits = c :: others) (hc : c ≠ '0') (exponent : ℤ) :
    ∃ n : Numeral, n.Sound ∧ n.IsReal ∧ realLayout.scientificText digits exponent = n.text := by
  subst hdigits
  obtain ⟨hfirst, hothers⟩ := List.forall_mem_cons.mp h
  refine ⟨⟨[c], others, some exponent⟩,
    ⟨List.forall_mem_singleton.mpr hfirst, .inr ⟨c, [], rfl, hc⟩, hothers⟩,
    .inr (Option.some_ne_none _), ?_⟩
  cases others with
  | nil => rfl
  | cons d others =>
    simp [Decimal.Layout.scientificText, Numeral.text, Numeral.tail, Numeral.exponentText,
      realLayout]

theorem numeral_of_real (x : Binary64) (hx : x.isFinite = true) :
    ∃ n : Numeral, n.Sound ∧ n.IsReal ∧
      realLayout.render x = signOf x.isNegative ++ n.text := by
  cases hzero : x.isZero with
  | true =>
    refine ⟨⟨['0'], ['0'], none⟩, ⟨Decimal.allDigits_zeros 1, .inl rfl,
      Decimal.allDigits_zeros 1⟩, .inl (List.cons_ne_nil _ _), ?_⟩
    simp only [Decimal.Layout.render, Binary64.isNaN_of_isFinite hx, hx, hzero,
      Bool.false_eq_true, if_false, Bool.not_true, if_true]
    rfl
  | false =>
    have hdigits := Decimal.allDigits_digitsOf (Decimal.shortest realLayout.tie x).digits
    obtain ⟨c, others, hcons, hc⟩ := head_digitsOf
      (Decimal.shortest_digits_ne realLayout.tie x (x.canonical_of_finite hx hzero))
    rw [Decimal.render_eq realLayout x hx hzero, Decimal.Layout.magnitudeText]
    split
    · obtain ⟨n, hn, hreal, htext⟩ := numeral_of_positional hdigits hcons hc _
      exact ⟨n, hn, hreal, congrArg _ htext⟩
    · obtain ⟨n, hn, hreal, htext⟩ := numeral_of_scientific hdigits hcons hc _
      exact ⟨n, hn, hreal, congrArg _ htext⟩

theorem spells_writeReal {x : Binary64} (hx : x.isFinite = true) :
    Spells (writeReal x) (.real x) := by
  obtain ⟨n, hn, hreal, htext⟩ := numeral_of_real x hx
  have hread := Decimal.read?_render realLayout x hx
  rw [htext, Decimal.read?_signed _ (readMagnitude_text hn), Option.some_inj] at hread
  have hfinite : (Decimal.nearest (natOfDigits (n.whole ++ n.fraction))
      (n.exponent.getD 0 - n.fraction.length)).isFinite = true := by
    rw [← Binary64.isFinite_abs, ← Binary64.abs_withSign x.isNegative, hread,
      Binary64.isFinite_abs, hx]
  have hwhole : (n.fraction.isEmpty && n.exponent.isNone) = false := by
    rcases hreal with hfraction | hexponent
    · rw [List.isEmpty_eq_false_iff.mpr hfraction, Bool.false_and]
    · rw [Option.isNone_eq_false_iff.mpr (Option.isSome_iff_ne_none.mpr hexponent),
        Bool.and_false]
  refine ⟨n, x.isNegative, hn, by rw [writeReal, if_pos hx, htext], ?_⟩
  simp only [Numeral.value?, hwhole, Bool.false_and, Bool.false_eq_true, if_false, hfinite,
    if_true, hread]

end StatsDaemon.Json
