import StatsDaemon.Json.Writer
import StatsDaemon.Proofs.Decimal.Plain

namespace StatsDaemon.Json

def Printed (text : List Char) : Prop :=
  ∀ c ∈ text, 0x20 ≤ c.toNat

instance (text : List Char) : Decidable (Printed text) :=
  List.decidableBAll (fun c : Char => 0x20 ≤ c.toNat) text

theorem Printed.append {before after : List Char} (hb : Printed before) (ha : Printed after) :
    Printed (before ++ after) :=
  List.forall_mem_append.mpr ⟨hb, ha⟩

theorem Printed.cons {c : Char} {text : List Char} (hc : 0x20 ≤ c.toNat) (h : Printed text) :
    Printed (c :: text) :=
  List.forall_mem_cons.mpr ⟨hc, h⟩

theorem Printed.lineBreak_notMem {text : List Char} (h : Printed text) : '\n' ∉ text :=
  fun hmem => absurd (h '\n' hmem) (by decide)

theorem printed_hexDigit : ∀ n < 16, 0x20 ≤ (hexDigit n).toNat := by
  decide

theorem printed_escape (c : Char) : Printed (escape c) := by
  unfold escape
  -- The controls with a letter of their own, the quote and the backslash.
  iterate 7 (split; decide)
  split
  · rename_i hcontrol
    have hmark : Printed ['\\', 'u', '0', '0'] := by decide
    refine hmark.append (.cons (printed_hexDigit _ ?_) (.cons (printed_hexDigit _ ?_) ?_))
    · omega
    · omega
    · exact List.forall_mem_nil _
  · rename_i hcontrol
    exact List.forall_mem_singleton.mpr (Nat.le_of_not_lt hcontrol)

theorem printed_writeString (s : String) : Printed (writeString s) := by
  refine .cons (by decide) (.append (fun c hc => ?_) (by decide))
  obtain ⟨d, -, hd⟩ := List.mem_flatMap.mp hc
  exact printed_escape d c hd

theorem printed_of_isDigit {c : Char} (h : c.isDigit = true) : 0x20 ≤ c.toNat := by
  simp only [Char.isDigit, Bool.and_eq_true, decide_eq_true_eq] at h
  exact Nat.le_trans (by decide) (UInt32.le_iff_toNat_le.mp h.1)

theorem printed_of_allDigits {text : List Char} (h : Decimal.AllDigits text) : Printed text :=
  fun c hc => printed_of_isDigit (h c hc)

theorem printed_digitsOf (n : Nat) : Printed (Decimal.digitsOf n) :=
  printed_of_allDigits (Decimal.allDigits_digitsOf n)

theorem printed_signOf (negative : Bool) : Printed (Decimal.signOf negative) := by
  cases negative <;> decide

theorem printed_writeInt (i : Int) : Printed (writeInt i) :=
  (printed_signOf _).append (printed_digitsOf _)

theorem printed_positionalText (l : Decimal.Layout) {digits : List Char}
    (h : Decimal.AllDigits digits) (point : Int) : Printed (l.positionalText digits point) := by
  intro c hc
  rcases Decimal.isPlain_of_mem_positionalText l h point c hc with hdigit | rfl | rfl
  · exact printed_of_isDigit hdigit
  · decide
  · decide

theorem printed_scientificText (l : Decimal.Layout) {digits : List Char}
    (h : Decimal.AllDigits digits) (exponent : Int) :
    Printed (l.scientificText digits exponent) := by
  unfold Decimal.Layout.scientificText
  refine .append (.append (.append ?mantissa (by decide)) ?sign) (printed_digitsOf _)
  case mantissa =>
    have hdigits := printed_of_allDigits h
    split
    · exact hdigits
    · exact hdigits
    · obtain ⟨hfirst, hrest⟩ := List.forall_mem_cons.mp hdigits
      exact .cons hfirst (.cons (by decide) hrest)
  case sign =>
    split
    · decide
    · split <;> decide

theorem printed_writeReal (x : Binary64) : Printed (writeReal x) := by
  unfold writeReal
  split
  · unfold Decimal.Layout.render
    have hdigits := Decimal.allDigits_digitsOf (Decimal.shortest realLayout.tie x).digits
    split
    · decide
    · refine (printed_signOf _).append ?_
      split
      · decide
      · split
        · decide
        · dsimp only
          split
          · exact printed_positionalText _ hdigits _
          · exact printed_scientificText _ hdigits _
  · decide

mutual

theorem printed_write : ∀ j : Json, Printed (write j)
  | .null => by rw [write]; decide
  | .bool b => by cases b <;> rw [write] <;> decide
  | .int i => by rw [write]; exact printed_writeInt i
  | .real x => by rw [write]; exact printed_writeReal x
  | .str s => by rw [write]; exact printed_writeString s
  | .arr items => by
    rw [write]
    exact .cons (by decide) ((printed_writeItems items).append (by decide))
  | .obj fields => by
    rw [write]
    exact .cons (by decide) ((printed_writeFields fields).append (by decide))

theorem printed_writeItems : ∀ items : List Json, Printed (writeItems items)
  | [] => by rw [writeItems]; decide
  | [item] => by rw [writeItems]; exact printed_write item
  | item :: next :: rest => by
    rw [writeItems]
    exact (printed_write item).append (.cons (by decide) (printed_writeItems (next :: rest)))

theorem printed_writeFields : ∀ fields : List (String × Json), Printed (writeFields fields)
  | [] => by rw [writeFields]; decide
  | [(key, value)] => by
    rw [writeFields]
    exact (printed_writeString key).append (.cons (by decide) (printed_write value))
  | (key, value) :: next :: rest => by
    rw [writeFields]
    exact ((printed_writeString key).append (.cons (by decide) (printed_write value))).append
      (.cons (by decide) (printed_writeFields (next :: rest)))

end

theorem lineBreak_notMem_text (j : Json) : '\n' ∉ j.text.toList := by
  rw [text, String.toList_ofList]
  exact (printed_write j).lineBreak_notMem

end StatsDaemon.Json
