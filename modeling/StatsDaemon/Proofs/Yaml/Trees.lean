import StatsDaemon.Proofs.Document
import StatsDaemon.Proofs.Json.Tokens
import StatsDaemon.Yaml.Writer

namespace StatsDaemon.Yaml

open Decimal (AllDigits digitsOf natOfDigits)
open Document

def textNode (s : String) : Node :=
  .scalar none (styleOf s == .plain) s

mutual

def ofJson : Json → Node
  | .null => .scalar none true "null"
  | .bool b => .scalar none true (if b then "true" else "false")
  | .int i => .scalar none true (String.ofList (Json.writeInt i))
  | .real x => .scalar none true (String.ofList (realLayout.render x))
  | .str s => textNode s
  | .arr items => .sequence none (ofItems items)
  | .obj fields => .mapping none (ofFields fields)

def ofItems : List Json → List Node
  | [] => []
  | item :: rest => ofJson item :: ofItems rest

def ofFields : List (String × Json) → List (Node × Node)
  | [] => []
  | (key, value) :: rest => (textNode key, ofJson value) :: ofFields rest

end

theorem ofItems_eq (items : List Json) : ofItems items = items.map ofJson := by
  induction items with
  | nil => rw [ofItems, List.map_nil]
  | cons item rest ih => rw [ofItems, ih, List.map_cons]

theorem digitValue_ten {c : Char} (h : c.isDigit = true) :
    Net.digitValue 10 c = some (c.toNat - '0'.toNat) := by
  simp only [Char.isDigit, Bool.and_eq_true, decide_eq_true_eq] at h
  have hdigit : '0' ≤ c ∧ c ≤ '9' := h
  have hlt : c.toNat - '0'.toNat < 10 := by
    have hnine : c.toNat ≤ 57 := h.2
    have hzero : '0'.toNat = 48 := rfl
    omega
  rw [Net.digitValue, if_pos hdigit, if_pos hlt]

theorem foldlM_digits {digits : List Char} (h : AllDigits digits) (n : ℕ) :
    digits.foldlM (fun n c => (Net.digitValue 10 c).map (10 * n + ·)) n =
      some (digits.foldl (fun n c => 10 * n + (c.toNat - '0'.toNat)) n) := by
  induction digits generalizing n with
  | nil => rfl
  | cons c digits ih =>
    obtain ⟨hc, hdigits⟩ := List.forall_mem_cons.mp h
    rw [List.foldlM_cons, digitValue_ten hc]
    exact ih hdigits _

theorem notMem_digitsOf (n : ℕ) {c : Char} (h : c.isDigit = false) : c ∉ digitsOf n := by
  intro hmem
  rw [Decimal.allDigits_digitsOf n c hmem] at h
  cases h

theorem dropSign_digitsOf (n : ℕ) : dropSign (digitsOf n) = digitsOf n := by
  unfold dropSign
  split
  · rename_i heq
    exact absurd (heq ▸ List.mem_cons_self) (notMem_digitsOf n (c := '+') rfl)
  · rename_i heq
    exact absurd (heq ▸ List.mem_cons_self) (notMem_digitsOf n (c := '-') rfl)
  · rfl

theorem isZeroPadded_digitsOf (n : ℕ) : isZeroPadded (digitsOf n) = false := by
  rw [isZeroPadded, dropSign_digitsOf]
  by_cases hn : n = 0
  · rw [hn]
    rfl
  · obtain ⟨c, rest, hdigits, hc⟩ := Json.head_digitsOf hn
    rw [hdigits]
    split
    · rename_i heq
      exact absurd (List.cons.inj heq).1 hc
    · rfl

theorem magnitude?_digitsOf (n : ℕ) : magnitude? (digitsOf n) (digitsOf n) = some n := by
  have hread : digits? 10 (digitsOf n) = some n := by
    have hne : (digitsOf n).isEmpty = false := List.isEmpty_eq_false_iff.mpr Nat.toDigits_ne_nil
    rw [digits?, hne, if_neg Bool.false_ne_true, foldlM_digits (Decimal.allDigits_digitsOf n)]
    exact congrArg some (Decimal.natOfDigits_digitsOf n)
  have hradix {mark : Char} {rest : List Char} (hmark : mark.isDigit = false) :
      digitsOf n ≠ '0' :: mark :: rest := by
    intro heq
    exact notMem_digitsOf n hmark (heq ▸ List.mem_cons_of_mem _ List.mem_cons_self)
  unfold magnitude?
  split
  · rename_i heq
    exact absurd heq (hradix rfl)
  · rename_i heq
    exact absurd heq (hradix rfl)
  · rename_i heq
    exact absurd heq (hradix rfl)
  · rw [isZeroPadded_digitsOf, Option.none_or, if_neg Bool.false_ne_true, hread]

theorem natural?_digitsOf (n : ℕ) : natural? (digitsOf n) = some n := by
  unfold natural?
  split
  · rename_i heq
    exact absurd (heq ▸ List.mem_cons_self) (notMem_digitsOf n (c := '+') rfl)
  · exact magnitude?_digitsOf n

def specialTexts : List String :=
  [".inf", ".Inf", ".INF", "-.inf", "-.Inf", "-.INF", ".nan", ".NaN", ".NAN"]

section

variable {x : Binary64} (hx : x.isFinite = true)

include hx

-- A special text has a point where the text of a finite number has a digit.
theorem render_notSpecial : String.ofList (realLayout.render x) ∉ specialTexts := by
  intro hspecial
  obtain ⟨c, rest, htext, hc⟩ := Decimal.render_head realLayout x hx
  have hpoint : ∀ w ∈ specialTexts, (w.toList.dropWhile (· == '-')).head? = some '.' := by decide
  have hfirst : ((realLayout.render x).dropWhile (· == '-')).head? = some c := by
    have hminus : c ≠ '-' := by
      rintro rfl
      cases hc
    rw [htext]
    cases x.isNegative <;> simp [Decimal.signOf, hminus]
  have heq := hpoint _ hspecial
  rw [String.toList_ofList, hfirst] at heq
  rw [Option.some.inj heq] at hc
  cases hc

theorem render_noPlus (chars : List Char) : realLayout.render x ≠ '+' :: chars := by
  intro heq
  obtain ⟨c, rest, htext, hc⟩ := Decimal.render_head realLayout x hx
  rw [htext] at heq
  cases hsign : x.isNegative with
  | true =>
    rw [hsign] at heq
    exact absurd (List.cons.inj heq).1 (by decide)
  | false =>
    rw [hsign] at heq
    rw [(List.cons.inj heq).1] at hc
    cases hc

theorem real?_render : real? (realLayout.render x) = some x := by
  have hread := Decimal.read?_render realLayout x hx
  have hdrop : dropPlus (realLayout.render x) = realLayout.render x := by
    unfold dropPlus
    split
    · rename_i heq
      exact absurd heq (render_noPlus hx _)
    · rfl
  have hspecial := render_notSpecial hx
  simp only [specialTexts, List.mem_cons, not_or] at hspecial
  obtain ⟨hinf, hInf, hINF, hminf, hmInf, hmINF, hnan, hNaN, hNAN, -⟩ := hspecial
  rw [real?.eq_def, hdrop, if_neg (not_or_intro hinf (not_or_intro hInf hINF)),
    if_neg (not_or_intro hminf (not_or_intro hmInf hmINF)),
    if_neg (not_or_intro hnan (not_or_intro hNaN hNAN))]
  split
  · rename_i heq
    exact absurd heq (render_noPlus hx _)
  · rename_i heq
    exact absurd heq (render_noPlus hx _)
  · rw [hread, Option.filter_some, if_pos hx]

end

theorem looks_of_plain {s : String} (h : styleOf s = .plain) :
    s.isEmpty = false ∧ isNull s = false ∧ readBool s = none ∧ isZeroPadded s.toList = false ∧
      integer? s.toList = none ∧ real? s.toList = none := by
  have hambiguous : isAmbiguous s = false := by
    by_contra hambiguous
    rw [Bool.not_eq_false] at hambiguous
    unfold styleOf at h
    simp only [hambiguous, if_true] at h
    split at h <;> cases h
  simp only [isAmbiguous, Bool.or_eq_false_iff, Option.isSome_eq_false_iff,
    Option.isNone_iff_eq_none] at hambiguous
  obtain ⟨⟨⟨⟨⟨hempty, hnull⟩, hbool⟩, hpadded⟩, hinteger⟩, hreal⟩ := hambiguous
  exact ⟨hempty, hnull, hbool, hpadded, hinteger, hreal⟩

theorem scalarValue?_text (s : String) :
    scalarValue? none (styleOf s == .plain) s = some (.str s) := by
  by_cases hplain : styleOf s = .plain
  · obtain ⟨hempty, hnull, hbool, hpadded, hinteger, hreal⟩ := looks_of_plain hplain
    have hvalue : plainValue? s = some (.str s) := by
      rw [plainValue?, hempty, hnull, Bool.or_self, if_neg Bool.false_ne_true]
      simp only [hbool, hinteger, hpadded, hreal, Bool.false_eq_true, if_false]
    rw [hplain]
    exact hvalue
  · rw [beq_eq_false_iff_ne.mpr hplain]
    rfl

theorem itemValues?_ofItems {items : List Json}
    (h : ∀ item ∈ items, (ofJson item).value? = some item) :
    Node.itemValues? (ofItems items) = some items := by
  induction items with
  | nil => rfl
  | cons item rest ih =>
    obtain ⟨hitem, hrest⟩ := List.forall_mem_cons.mp h
    rw [ofItems, Node.itemValues?, hitem, ih hrest]
    rfl

theorem entryValues?_ofFields {fields : List (String × Json)}
    (h : ∀ field ∈ fields, (ofJson field.2).value? = some field.2) :
    Node.entryValues? (ofFields fields) = some fields := by
  induction fields with
  | nil => rfl
  | cons field rest ih =>
    obtain ⟨key, value⟩ := field
    obtain ⟨hvalue, hrest⟩ := List.forall_mem_cons.mp h
    rw [ofFields, Node.entryValues?, textNode, Node.value?, scalarValue?_text, hvalue, ih hrest]
    rfl

theorem value?_ofJson {j : Json} (h : Literal j) : (ofJson j).value? = some j := by
  induction h with
  | bool b =>
    rw [ofJson, Node.value?]
    cases b <;> rfl
  | str s => rw [ofJson, textNode, Node.value?, scalarValue?_text]
  | arr h ih =>
    rw [ofJson, Node.value?, itemValues?_ofItems ih]
    rfl
  | obj h ih =>
    rw [ofJson, Node.value?, entryValues?_ofFields ih]
    rfl

theorem fields?_ofFields (fields : List (String × Json)) :
    (ofFields fields).mapM (fun (key, value) => key.text?.map (·, value)) =
      some (fields.map fun (name, value) => (name, ofJson value)) := by
  induction fields with
  | nil => rfl
  | cons field rest ih =>
    obtain ⟨key, value⟩ := field
    rw [ofFields, List.mapM_cons, ih]
    rfl

theorem isAbsent_textNode (s : String) : isAbsent (textNode s) = false := by
  by_cases hplain : styleOf s = .plain
  · obtain ⟨hempty, hnull, -⟩ := looks_of_plain hplain
    rw [textNode, hplain]
    show (s.isEmpty || isNull s) = false
    rw [hempty, hnull, Bool.or_self]
  · rw [textNode, beq_eq_false_iff_ne.mpr hplain]
    rfl

theorem ofJson_ofNat (n : ℕ) :
    ofJson (.ofNat n) = .scalar none true (String.ofList (digitsOf n)) := by
  have hsign : decide ((n : ℤ) < 0) = false := decide_eq_false (by omega)
  rw [Json.ofNat, ofJson, Json.writeInt, hsign, Int.natAbs_natCast]
  rfl

theorem isAbsent_ofNat (n : ℕ) : isAbsent (ofJson (.ofNat n)) = false := by
  have hother {word : String} {c : Char} (hc : c.isDigit = false) (hmem : c ∈ word.toList) :
      String.ofList (digitsOf n) ≠ word := by
    rintro rfl
    rw [String.toList_ofList] at hmem
    exact notMem_digitsOf n hc hmem
  have hempty : String.ofList (digitsOf n) ≠ "" := by
    intro heq
    have hnil : digitsOf n = [] := by rw [← String.toList_ofList (l := digitsOf n), heq]; rfl
    exact Nat.toDigits_ne_nil hnil
  have hnull : isNull (String.ofList (digitsOf n)) = false := by
    simp only [isNull, Bool.or_eq_false_iff, decide_eq_false_iff_not]
    exact ⟨⟨⟨hother (c := 'n') rfl (by decide), hother (c := 'N') rfl (by decide)⟩,
      hother (c := 'N') rfl (by decide)⟩, hother (c := '~') rfl (by decide)⟩
  rw [ofJson_ofNat]
  show ((String.ofList (digitsOf n)).isEmpty || isNull (String.ofList (digitsOf n))) = false
  rw [hnull, Bool.or_false, String.isEmpty_eq_false_iff]
  exact hempty

theorem natural?_scalar {text : String} {n : ℕ} (htext : natural? text.toList = some n)
    (hn : n < 2 ^ 64) : Document.natural? (Node.scalar none true text) = some n := by
  show (natural? text.toList).bind _ = _
  rw [htext, Option.bind_some]
  exact if_pos (by omega)

theorem real?_scalar (text : String) :
    Document.real? (Node.scalar none true text) = real? text.toList :=
  rfl

theorem stands_ofJson : Stands ofJson where
  text s := by rw [ofJson]; rfl
  natural {n} hn := by
    rw [ofJson_ofNat]
    exact natural?_scalar (by rw [String.toList_ofList, natural?_digitsOf]) hn
  real {x} hx := by
    rw [ofJson, real?_scalar, String.toList_ofList, real?_render hx]
  flag b := by
    rw [ofJson]
    cases b <;> rfl
  choice s := by rw [ofJson]; rfl
  items items := by
    rw [ofJson, ofItems_eq]
    rfl
  fields fields := by
    rw [ofJson]
    exact fields?_ofFields fields
  positions _ := rfl
  absent_null := by rw [ofJson]; rfl
  absent_text s := by
    rw [ofJson]
    exact isAbsent_textNode s
  absent_natural := isAbsent_ofNat
  absent_record fields := by rw [ofJson]; rfl
  content h := value?_ofJson h

end StatsDaemon.Yaml
