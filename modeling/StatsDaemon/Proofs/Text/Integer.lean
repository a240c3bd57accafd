import StatsDaemon.Proofs.Decimal.RoundTrip
import StatsDaemon.Text.Integer

namespace StatsDaemon.Text

open Decimal

-- Digits, at least one, with an optional plus sign. Zeros may lead.
inductive Numeral : List Char → Nat → Prop where
  | digits (digits : List Char) (hne : digits ≠ []) (h : AllDigits digits) :
    Numeral digits (natOfDigits digits)
  | plus (digits : List Char) (hne : digits ≠ []) (h : AllDigits digits) :
    Numeral ('+' :: digits) (natOfDigits digits)

inductive SignedNumeral : List Char → Int → Prop where
  | natural (text : List Char) (n : Nat) (h : Numeral text n) : SignedNumeral text n
  | minus (digits : List Char) (hne : digits ≠ []) (h : AllDigits digits) :
    SignedNumeral ('-' :: digits) (-(natOfDigits digits : Int))

theorem numeral_digitsOf (n : Nat) : Numeral (digitsOf n) n := by
  have h := Numeral.digits (digitsOf n) Nat.toDigits_ne_nil (allDigits_digitsOf n)
  rwa [natOfDigits_digitsOf] at h

theorem notMem_digits {digits : List Char} (h : AllDigits digits) {c : Char}
    (hc : c.isDigit = false) : c ∉ digits :=
  fun hmem => Bool.false_ne_true (hc.symm.trans (h c hmem))

theorem Numeral.notMem {text : List Char} {n : Nat} (h : Numeral text n) {c : Char}
    (hdigit : c.isDigit = false) (hplus : c ≠ '+') : c ∉ text := by
  cases h with
  | digits digits hne h => exact notMem_digits h hdigit
  | plus digits hne h =>
    rw [List.mem_cons, not_or]
    exact ⟨hplus, notMem_digits h hdigit⟩

theorem SignedNumeral.notMem {text : List Char} {n : Int} (h : SignedNumeral text n) {c : Char}
    (hdigit : c.isDigit = false) (hplus : c ≠ '+') (hminus : c ≠ '-') : c ∉ text := by
  cases h with
  | natural text n h => exact h.notMem hdigit hplus
  | minus digits hne h =>
    rw [List.mem_cons, not_or]
    exact ⟨hminus, notMem_digits h hdigit⟩

def continueWith (n : Nat) (digits : List Char) : Nat :=
  digits.foldl (fun n c => 10 * n + (c.toNat - '0'.toNat)) n

theorem le_continueWith (n : Nat) (digits : List Char) : n ≤ continueWith n digits := by
  induction digits generalizing n with
  | nil => exact Nat.le_refl n
  | cons c rest ih =>
    have hrest := ih (10 * n + (c.toNat - '0'.toNat))
    simp only [continueWith, List.foldl_cons] at hrest ⊢
    omega

-- More digits never make a number smaller, so the bound is exceeded where it is at the end.
theorem readDigits_eq_ok_iff {limit n : Nat} (hn : n ≤ limit) {digits : List Char} {m : Nat} :
    readDigits limit n digits = .ok m ↔
      AllDigits digits ∧ continueWith n digits = m ∧ m ≤ limit := by
  induction digits generalizing n with
  | nil =>
    simp only [readDigits, Except.ok.injEq, AllDigits, continueWith, List.foldl_nil]
    constructor
    · rintro rfl
      exact ⟨by simp, rfl, hn⟩
    · exact fun h => h.2.1
  | cons c rest ih =>
    have hnext : continueWith n (c :: rest) =
        continueWith (10 * n + (c.toNat - '0'.toNat)) rest := rfl
    have hle := le_continueWith (10 * n + (c.toNat - '0'.toNat)) rest
    simp only [readDigits, AllDigits, List.forall_mem_cons, hnext]
    cases hc : c.isDigit with
    | false => simp
    | true =>
      by_cases hlimit : limit < 10 * n + (c.toNat - '0'.toNat)
      · simp only [Bool.not_true, Bool.false_eq_true, if_false, if_pos hlimit, reduceCtorEq,
          false_iff]
        rintro ⟨-, rfl, hm⟩
        omega
      · simp only [Bool.not_true, Bool.false_eq_true, if_false, if_neg hlimit, true_and]
        exact ih (Nat.le_of_not_lt hlimit)

theorem readDigits_zero_iff {limit : Nat} {digits : List Char} {m : Nat} :
    readDigits limit 0 digits = .ok m ↔ AllDigits digits ∧ natOfDigits digits = m ∧ m ≤ limit :=
  readDigits_eq_ok_iff (Nat.zero_le limit)

theorem readNatural_eq_ok_iff {limit : Nat} {text : List Char} {n : Nat} :
    readNatural limit text = .ok n ↔ Numeral text n ∧ n ≤ limit := by
  constructor
  · intro h
    unfold readNatural at h
    split at h
    · cases h
    · cases h
    · rename_i rest hne
      obtain ⟨hdigits, rfl, hle⟩ := readDigits_zero_iff.mp h
      exact ⟨.plus rest (fun hnil => hne (by rw [hnil])) hdigits, hle⟩
    · rename_i hne _ _
      obtain ⟨hdigits, rfl, hle⟩ := readDigits_zero_iff.mp h
      exact ⟨.digits text (fun hnil => hne hnil) hdigits, hle⟩
  · rintro ⟨hnumeral, hle⟩
    cases hnumeral with
    | digits digits hne hdigits =>
      have hread := readDigits_zero_iff.mpr ⟨hdigits, rfl, hle⟩
      unfold readNatural
      split
      · exact absurd rfl hne
      · exact absurd (hdigits '+' List.mem_cons_self) (by decide)
      · exact absurd (hdigits '+' List.mem_cons_self) (by decide)
      · exact hread
    | plus digits hne hdigits =>
      have hread := readDigits_zero_iff.mpr ⟨hdigits, rfl, hle⟩
      cases digits with
      | nil => exact absurd rfl hne
      | cons c rest => exact hread

theorem readWord64_eq_ok_iff {text : List Char} {n : Nat} :
    readWord64 text = .ok n ↔ Numeral text n ∧ n < 2 ^ 64 := by
  rw [readWord64, readNatural_eq_ok_iff]
  exact and_congr_right fun _ => by omega

theorem readInteger64?_of_numeral {text : List Char} {n : Int} (h : SignedNumeral text n)
    (hlow : -2 ^ 63 ≤ n) (hhigh : n < 2 ^ 63) : readInteger64? text = some n := by
  cases h with
  | natural text n h =>
    have hread := readNatural_eq_ok_iff.mpr ⟨h, show n ≤ 0x7fffffffffffffff by omega⟩
    have hminus : '-' ∉ text := h.notMem (by decide) (by decide)
    unfold readInteger64?
    split
    · simp at hminus
    · simp at hminus
    · rw [hread]
      rfl
  | minus digits hne h =>
    have hread : readDigits 0x8000000000000000 0 digits = .ok (natOfDigits digits) :=
      readDigits_zero_iff.mpr ⟨h, rfl, by omega⟩
    cases digits with
    | nil => exact absurd rfl hne
    | cons c rest =>
      rw [readInteger64?, hread]
      · rfl
      · simp

end StatsDaemon.Text
