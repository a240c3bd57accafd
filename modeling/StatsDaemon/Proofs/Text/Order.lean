import Mathlib
import StatsDaemon.Text.Utf8

namespace StatsDaemon.Text

open String (utf8EncodeChar)

-- The first byte of a character tells how many follow; then they are its digits to the base 64.
theorem utf8EncodeChar_append_lt {c d : Char} (h : c < d) (bytes others : List UInt8) :
    utf8EncodeChar c ++ bytes < utf8EncodeChar d ++ others := by
  have hval : c.val.toNat < d.val.toNat := h
  have hbound : d.val.toNat < 0x110000 := by
    rcases d.valid with hlow | ⟨-, hhigh⟩
    · exact hlow.trans (by decide)
    · exact hhigh
  have hlt (n m : ℕ) : UInt8.ofNat n < UInt8.ofNat m ↔ n % 256 < m % 256 := by
    rw [UInt8.lt_iff_toNat_lt, UInt8.toNat_ofNat', UInt8.toNat_ofNat']
  have heq (n m : ℕ) : UInt8.ofNat n = UInt8.ofNat m ↔ n % 256 = m % 256 := by
    rw [← UInt8.toNat_inj, UInt8.toNat_ofNat', UInt8.toNat_ofNat']
  have hthird (n : ℕ) : n / 4096 = n / 64 / 64 := (Nat.div_div_eq_div_mul n 64 64).symm
  have hfourth (n : ℕ) : n / 262144 = n / 64 / 64 / 64 := by
    rw [Nat.div_div_eq_div_mul, Nat.div_div_eq_div_mul]
  unfold utf8EncodeChar
  dsimp only
  split_ifs <;> simp only [List.cons_append, List.nil_append, List.cons_lt_cons_iff, hlt, heq,
    hthird, hfourth] <;> omega

theorem flatMap_utf8EncodeChar_lt {text other : List Char} (h : text < other) :
    text.flatMap utf8EncodeChar < other.flatMap utf8EncodeChar := by
  induction h with
  | @nil d rest =>
    have hfirst : utf8EncodeChar d ≠ [] := by
      unfold utf8EncodeChar
      dsimp only
      split_ifs <;> exact List.cons_ne_nil _ _
    obtain ⟨byte, bytes, hbytes⟩ := List.exists_cons_of_ne_nil hfirst
    rw [List.flatMap_cons, hbytes]
    exact List.nil_lt_cons _ _
  | rel h => exact utf8EncodeChar_append_lt h _ _
  | @cons c rest others h ih =>
    rw [List.flatMap_cons, List.flatMap_cons]
    exact List.append_left_lt ih

theorem bytes_lt_iff {text other : String} :
    text.toUTF8.toList < other.toUTF8.toList ↔ text < other := by
  have hbytes {text other : String} (h : text < other) :
      text.toUTF8.toList < other.toUTF8.toList := by
    have hencode := flatMap_utf8EncodeChar_lt (String.lt_iff.mp h)
    rwa [← encode_eq_flatMap, ← encode_eq_flatMap, encode, encode, String.ofList_toList,
      String.ofList_toList] at hencode
  refine ⟨fun h => ?_, hbytes⟩
  rcases lt_trichotomy text other with hless | rfl | hgreater
  · exact hless
  · exact absurd h (List.lt_irrefl _)
  · exact absurd h (List.lt_asymm (hbytes hgreater))

end StatsDaemon.Text
