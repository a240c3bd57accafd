import Mathlib
import StatsDaemon.Graphite.Sanitize
import StatsDaemon.Text.Utf8

namespace StatsDaemon.Graphite

-- A character that divides neither a line into fields nor a path into tags.
def IsInert (c : Char) : Prop :=
  Text.isBlank c = false ∧ c ≠ ';' ∧ c ≠ '='

instance (c : Char) : Decidable (IsInert c) :=
  inferInstanceAs (Decidable (_ ∧ _ ∧ _))

def Inert (text : List Char) : Prop :=
  ∀ c ∈ text, IsInert c

instance (text : List Char) : Decidable (Inert text) :=
  List.decidableBAll IsInert text

theorem Inert.append {before after : List Char} (hb : Inert before) (ha : Inert after) :
    Inert (before ++ after) :=
  List.forall_mem_append.mpr ⟨hb, ha⟩

theorem Inert.notMem {text : List Char} (h : Inert text) {c : Char} (hc : ¬ IsInert c) :
    c ∉ text :=
  fun hmem => hc (h c hmem)

theorem toNat_lt_of_isPathChar {c : Char} (h : isPathChar c = true) : c.toNat < 128 := by
  simp only [isPathChar, Char.isAlphanum, Char.isAlpha, Char.isUpper, Char.isLower, Char.isDigit,
    Bool.or_eq_true, Bool.and_eq_true, decide_eq_true_eq, UInt32.le_iff_toNat_le, ge_iff_le] at h
  rcases h with ((h | rfl) | rfl) | rfl
  · change ((65 ≤ c.toNat ∧ c.toNat ≤ 90) ∨ 97 ≤ c.toNat ∧ c.toNat ≤ 122) ∨
      48 ≤ c.toNat ∧ c.toNat ≤ 57 at h
    omega
  all_goals decide

theorem isInert_of_isPathChar {c : Char} (h : isPathChar c = true) : IsInert c := by
  have hascii : ∀ n < 128, isPathChar (Char.ofNat n) = true → IsInert (Char.ofNat n) := by decide
  have hc := hascii c.toNat (toNat_lt_of_isPathChar h)
  rw [Char.ofNat_toNat] at hc
  exact hc h

theorem isPathByte_of_le {b : UInt8} (h : 128 ≤ b.toNat) : isPathByte b = false := by
  have hvalid : b.toNat.isValidChar := .inl (by have := b.toNat_lt; omega)
  have hchar : (Char.ofNat b.toNat).toNat = b.toNat := by
    rw [Char.ofNat, dif_pos hvalid]
    rfl
  refine Bool.eq_false_iff.mpr fun hpath => ?_
  have hlt := toNat_lt_of_isPathChar hpath
  omega

-- A character is of a path if its bytes are: all bytes of a longer one are beyond ASCII.
theorem all_isPathByte_utf8EncodeChar (c : Char) :
    (String.utf8EncodeChar c).all isPathByte = isPathChar c := by
  by_cases h : c.toNat < 128
  · have hbyte : (UInt8.ofNat c.toNat).toNat = c.toNat := by
      rw [UInt8.toNat_ofNat']
      exact Nat.mod_eq_of_lt (by omega)
    have hencode : String.utf8EncodeChar c = [UInt8.ofNat c.toNat] := by
      unfold String.utf8EncodeChar
      exact if_pos (Nat.le_of_lt_succ h)
    rw [hencode, List.all_cons, List.all_nil, Bool.and_true, isPathByte, hbyte, Char.ofNat_toNat]
  · have hpath : isPathChar c = false :=
      Bool.eq_false_iff.mpr fun hpath => h (toNat_lt_of_isPathChar hpath)
    rw [hpath]
    refine List.all_eq_false.mpr ?_
    have hpos : 0 < (String.utf8EncodeChar c).length :=
      String.length_utf8EncodeChar c ▸ c.utf8Size_pos
    obtain ⟨byte, hbyte⟩ := List.exists_mem_of_length_pos hpos
    have hle : 128 ≤ byte.toNat := by
      by_contra hascii
      have hsame := Text.toNat_of_mem_utf8EncodeChar hbyte (by omega)
      omega
    refine ⟨byte, hbyte, ?_⟩
    rw [isPathByte_of_le hle]
    decide

theorem isCleanPath_eq (text : String) : isCleanPath text = text.toList.all isPathChar := by
  have hencode : text.toUTF8.toList = text.toList.flatMap String.utf8EncodeChar := by
    rw [← Text.encode_eq_flatMap, Text.encode, String.ofList_toList]
  rw [isCleanPath, hencode, List.all_flatMap]
  exact congrArg _ (funext all_isPathByte_utf8EncodeChar)

def OfPath (c : Char) : Prop :=
  'A' ≤ c ∧ c ≤ 'Z' ∨ 'a' ≤ c ∧ c ≤ 'z' ∨ '0' ≤ c ∧ c ≤ '9' ∨ c = '_' ∨ c = '.' ∨ c = '-'

def IsPath (text : String) : Prop :=
  ∀ c ∈ text.toList, OfPath c

inductive PathOf : List Char → List Char → Prop where
  | nil : PathOf [] []
  | blank {c : Char} {rest path : List Char} (isBlank : Text.isBlank c = true)
      (made : PathOf rest path) : PathOf (c :: rest) ('_' :: path)
  | slash {rest path : List Char} (made : PathOf rest path) : PathOf ('/' :: rest) ('-' :: path)
  | kept {c : Char} {rest path : List Char} (ofPath : OfPath c) (made : PathOf rest path) :
      PathOf (c :: rest) (c :: path)
  | removed {c : Char} {rest path : List Char} (notBlank : Text.isBlank c = false)
      (notSlash : c ≠ '/') (notOfPath : ¬ OfPath c) (made : PathOf rest path) :
      PathOf (c :: rest) path

theorem isPathChar_iff {c : Char} : isPathChar c = true ↔ OfPath c := by
  simp only [isPathChar, Char.isAlphanum, Char.isAlpha, Char.isUpper, Char.isLower, Char.isDigit,
    Bool.or_eq_true, Bool.and_eq_true, decide_eq_true_eq, OfPath, Char.le_def, ge_iff_le]
  tauto

theorem pathChar?_of_isPathChar {c : Char} (h : isPathChar c = true) : pathChar? c = some c := by
  have hblank := (isInert_of_isPathChar h).1
  have hslash : c ≠ '/' := by rintro rfl; revert h; decide
  simp [pathChar?, hblank, hslash, h]

theorem pathChar?_cases (c : Char) :
    (Text.isBlank c = true ∧ pathChar? c = some '_') ∨ (c = '/' ∧ pathChar? c = some '-') ∨
      (OfPath c ∧ pathChar? c = some c) ∨
      (Text.isBlank c = false ∧ c ≠ '/' ∧ ¬ OfPath c ∧ pathChar? c = none) := by
  by_cases hblank : Text.isBlank c = true
  · exact .inl ⟨hblank, if_pos hblank⟩
  by_cases hslash : c = '/'
  · exact .inr (.inl ⟨hslash, hslash ▸ by decide⟩)
  by_cases hpath : isPathChar c = true
  · exact .inr (.inr (.inl ⟨isPathChar_iff.mp hpath, pathChar?_of_isPathChar hpath⟩))
  · have hnone : pathChar? c = none := by simp [pathChar?, hblank, hslash, hpath]
    exact .inr (.inr (.inr ⟨by simpa using hblank, hslash, mt isPathChar_iff.mpr hpath, hnone⟩))

theorem isPathChar_of_pathChar? {c d : Char} (h : pathChar? c = some d) : isPathChar d = true := by
  obtain ⟨-, hc⟩ | ⟨-, hc⟩ | ⟨hpath, hc⟩ | ⟨-, -, -, hc⟩ := pathChar?_cases c
  all_goals
    rw [hc] at h
    cases h
  · decide
  · decide
  · exact isPathChar_iff.mpr hpath

theorem pathOf_filterMap (text : List Char) : PathOf text (text.filterMap pathChar?) := by
  induction text with
  | nil => exact .nil
  | cons c rest ih =>
    rw [List.filterMap_cons]
    obtain ⟨hblank, hc⟩ | ⟨rfl, hc⟩ | ⟨hpath, hc⟩ | ⟨hblank, hslash, hpath, hc⟩ :=
      pathChar?_cases c
    all_goals rw [hc]
    · exact .blank hblank ih
    · exact .slash ih
    · exact .kept hpath ih
    · exact .removed hblank hslash hpath ih

theorem pathOf_iff {text path : List Char} :
    PathOf text path ↔ text.filterMap pathChar? = path := by
  refine ⟨fun made => ?_, fun h => h ▸ pathOf_filterMap text⟩
  induction made with
  | nil => rfl
  | blank isBlank _ ih => simp [pathChar?, isBlank, ih]
  | slash _ ih =>
    have hslash : pathChar? '/' = some '-' := by decide
    simp [hslash, ih]
  | kept ofPath _ ih => simp [pathChar?_of_isPathChar (isPathChar_iff.mpr ofPath), ih]
  | removed notBlank notSlash notOfPath _ ih =>
    simp [pathChar?, notBlank, notSlash, isPathChar_iff, notOfPath, ih]

theorem sanitizePath_eq (text : String) :
    sanitizePath text = String.ofList (text.toList.filterMap pathChar?) := by
  rw [sanitizePath, isCleanPath_eq]
  split
  · rename_i hclean
    have hkept : ∀ c ∈ text.toList, pathChar? c = some c := fun c hc =>
      pathChar?_of_isPathChar (List.all_eq_true.mp hclean c hc)
    rw [List.filterMap_congr hkept, List.filterMap_some, String.ofList_toList]
  · rfl

theorem sanitizePath_of_clean {text : String} (h : text.toList.all isPathChar = true) :
    sanitizePath text = text := by
  rw [sanitizePath, isCleanPath_eq, if_pos h]

theorem all_isPathChar_sanitizePath (text : String) :
    (sanitizePath text).toList.all isPathChar = true := by
  rw [sanitizePath_eq, String.toList_ofList, List.all_eq_true]
  intro c hc
  obtain ⟨d, -, hd⟩ := List.mem_filterMap.mp hc
  exact isPathChar_of_pathChar? hd

theorem isCleanPath_iff (text : String) : isCleanPath text = true ↔ sanitizePath text = text := by
  rw [isCleanPath_eq]
  exact ⟨sanitizePath_of_clean, fun h => h ▸ all_isPathChar_sanitizePath text⟩

theorem isPath_sanitizePath (text : String) : IsPath (sanitizePath text) := fun c hc =>
  isPathChar_iff.mp (List.all_eq_true.mp (all_isPathChar_sanitizePath text) c hc)

theorem inert_sanitizePath (text : String) : Inert (sanitizePath text).toList := fun c hc =>
  isInert_of_isPathChar (List.all_eq_true.mp (all_isPathChar_sanitizePath text) c hc)

def Meaningful (c : Char) : Prop :=
  Text.isBlank c = true ∨ c = ';' ∨ c = '=' ∨ c = '~' ∨ c = '!'

def IsPlain (text : String) : Prop :=
  ∀ c ∈ text.toList, ¬ Meaningful c

def TagCharOf (c d : Char) : Prop :=
  Meaningful c ∧ d = '_' ∨ ¬ Meaningful c ∧ d = c

theorem isReserved_iff {c : Char} : isReserved c = true ↔ Meaningful c := by
  simp [isReserved, Meaningful, or_assoc]

theorem tagCharOf_iff {c d : Char} : TagCharOf c d ↔ tagChar c = d := by
  by_cases h : Meaningful c
  · rw [tagChar, if_pos (isReserved_iff.mpr h)]
    simp [TagCharOf, h, eq_comm]
  · rw [tagChar, if_neg (mt isReserved_iff.mp h)]
    simp [TagCharOf, h, eq_comm]

theorem forall₂_tagCharOf_iff {text tag : List Char} :
    List.Forall₂ TagCharOf text tag ↔ text.map tagChar = tag := by
  rw [← List.forall₂_eq_eq_eq, List.forall₂_map_left_iff]
  simp only [← tagCharOf_iff]

theorem not_meaningful_tagChar (c : Char) : ¬ Meaningful (tagChar c) := by
  rw [← isReserved_iff, tagChar]
  split
  · decide
  · assumption

theorem isInert_tagChar (c : Char) : IsInert (tagChar c) := by
  have h := not_meaningful_tagChar c
  simp only [Meaningful, not_or, Bool.not_eq_true] at h
  exact ⟨h.1, h.2.1, h.2.2.1⟩

theorem sanitizeTag_of_plain {text : String} (h : IsPlain text) : sanitizeTag text = text := by
  have hclean : ¬ text.toList.any isReserved = true := by
    rw [List.any_eq_true]
    rintro ⟨c, hc, hreserved⟩
    exact h c hc (isReserved_iff.mp hreserved)
  exact if_neg hclean

theorem sanitizeTag_eq (text : String) :
    sanitizeTag text = String.ofList (text.toList.map tagChar) := by
  unfold sanitizeTag
  split
  · rfl
  · rename_i hreserved
    have hkept : ∀ c ∈ text.toList, tagChar c = c := by
      intro c hc
      have hc : ¬ isReserved c = true := fun h => hreserved (List.any_eq_true.mpr ⟨c, hc, h⟩)
      rw [tagChar, if_neg hc]
    rw [List.map_congr_left hkept, List.map_id', String.ofList_toList]

theorem isPlain_sanitizeTag (text : String) : IsPlain (sanitizeTag text) := by
  intro c hc
  rw [sanitizeTag_eq, String.toList_ofList] at hc
  obtain ⟨d, -, rfl⟩ := List.mem_map.mp hc
  exact not_meaningful_tagChar d

theorem inert_sanitizeTag (text : String) : Inert (sanitizeTag text).toList := by
  rw [sanitizeTag_eq, String.toList_ofList]
  intro c hc
  obtain ⟨d, -, rfl⟩ := List.mem_map.mp hc
  exact isInert_tagChar d

-- Both ways through the sanitizers give the text that is made character by character, which has
-- nothing left to sanitize.
theorem sanitizers_idempotent (text : String) :
    ((∀ path, PathOf text.toList path ↔ (sanitizePath text).toList = path) ∧
      (isCleanPath text = true ↔ sanitizePath text = text) ∧ IsPath (sanitizePath text) ∧
      sanitizePath (sanitizePath text) = sanitizePath text) ∧
    ((∀ tag, List.Forall₂ TagCharOf text.toList tag ↔ (sanitizeTag text).toList = tag) ∧
      (sanitizeTag text).length = text.length ∧ IsPlain (sanitizeTag text) ∧
      sanitizeTag (sanitizeTag text) = sanitizeTag text) := by
  constructor
  · refine ⟨fun path => ?_, isCleanPath_iff text, isPath_sanitizePath text, ?_⟩
    · rw [pathOf_iff, sanitizePath_eq, String.toList_ofList]
    · exact sanitizePath_of_clean (all_isPathChar_sanitizePath text)
  · refine ⟨fun tag => ?_, ?_, isPlain_sanitizeTag text, ?_⟩
    · rw [forall₂_tagCharOf_iff, sanitizeTag_eq, String.toList_ofList]
    · rw [sanitizeTag_eq, String.length_ofList, List.length_map, String.length_toList]
    · exact sanitizeTag_of_plain (isPlain_sanitizeTag text)

-- A blank and a letter beyond ASCII, of two bytes each.
example : sanitizePath "päge\u00a0views/s!" = "pge_views-s" := by decide +kernel

end StatsDaemon.Graphite
