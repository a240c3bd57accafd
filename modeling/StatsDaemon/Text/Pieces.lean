namespace StatsDaemon.Text

variable {α : Type} [DecidableEq α]

-- The parts between separators; there is always one more than there are separators.
def pieces (sep : α) : List α → List (List α)
  | [] => [[]]
  | a :: rest =>
    if a = sep then [] :: pieces sep rest
    else match pieces sep rest with
      | [] => [[a]]
      | first :: more => (a :: first) :: more

theorem pieces_ne_nil (sep : α) (text : List α) : pieces sep text ≠ [] := by
  cases text with
  | nil => simp [pieces]
  | cons a rest =>
    simp only [pieces]
    split
    · simp
    · split <;> simp

theorem length_pieces (sep : α) (text : List α) : (pieces sep text).length = text.count sep + 1 := by
  induction text with
  | nil => rfl
  | cons a rest ih =>
    simp only [pieces, List.count_cons, beq_iff_eq]
    split
    · rw [List.length_cons, ih]
    · cases h : pieces sep rest with
      | nil => exact absurd h (pieces_ne_nil sep rest)
      | cons first more =>
        rw [h] at ih
        exact ih

theorem intercalate_pieces (sep : α) (text : List α) :
    [sep].intercalate (pieces sep text) = text := by
  induction text with
  | nil => simp [pieces, List.intercalate]
  | cons a rest ih =>
    simp only [pieces]
    split
    · subst_vars
      cases h : pieces a rest with
      | nil => exact absurd h (pieces_ne_nil a rest)
      | cons first more => rw [h] at ih; simpa [List.intercalate] using ih
    · cases h : pieces sep rest with
      | nil => exact absurd h (pieces_ne_nil sep rest)
      | cons first more =>
        rw [h] at ih
        cases more <;> simp_all [List.intercalate]

-- The pieces are what the library splits off, so its lemmas hold of them.
theorem pieces_eq_splitOn (sep : α) (text : List α) : pieces sep text = text.splitOn sep := by
  induction text with
  | nil => rfl
  | cons a rest ih =>
    simp only [pieces, List.splitOn_cons_eq_if_modifyHead, beq_iff_eq, ih]
    split
    · rfl
    · cases h : rest.splitOn sep with
      | nil => exact absurd h (List.splitOn_ne_nil sep rest)
      | cons first more => rfl

theorem pieces_append (sep : α) (before after : List α) :
    pieces sep (before ++ sep :: after) = pieces sep before ++ pieces sep after := by
  simp only [pieces_eq_splitOn, List.splitOn_append_cons_self]

theorem pieces_of_notMem {sep : α} {text : List α} (h : sep ∉ text) : pieces sep text = [text] := by
  rw [pieces_eq_splitOn, List.splitOn_eq_singleton h]

theorem pieces_intercalate {sep : α} {parts : List (List α)} (hne : parts ≠ [])
    (h : ∀ part ∈ parts, sep ∉ part) : pieces sep ([sep].intercalate parts) = parts := by
  rw [pieces_eq_splitOn, List.splitOn_intercalate sep h hne]

omit [DecidableEq α] in
theorem notMem_intercalate {a sep : α} {parts : List (List α)} (hsep : a ≠ sep)
    (h : ∀ part ∈ parts, a ∉ part) : a ∉ [sep].intercalate parts := by
  induction parts with
  | nil => simp
  | cons first rest ih =>
    obtain ⟨hfirst, hrest⟩ := List.forall_mem_cons.mp h
    cases rest with
    | nil => simpa using hfirst
    | cons second rest =>
      rw [List.intercalate_cons_cons]
      simp only [List.mem_append, List.mem_singleton, not_or]
      exact ⟨⟨hfirst, hsep⟩, ih hrest⟩

def cut (sep : α) : List α → Option (List α × List α)
  | [] => none
  | a :: rest =>
    if a = sep then some ([], rest)
    else (cut sep rest).map fun (before, after) => (a :: before, after)

theorem cut_append {sep : α} {before : List α} (h : sep ∉ before) (after : List α) :
    cut sep (before ++ sep :: after) = some (before, after) := by
  induction before with
  | nil => simp [cut]
  | cons a rest ih =>
    rw [List.mem_cons, not_or] at h
    rw [List.cons_append, cut, if_neg (Ne.symm h.1), ih h.2]
    rfl

theorem cut_of_notMem {sep : α} {text : List α} (h : sep ∉ text) : cut sep text = none := by
  induction text with
  | nil => rfl
  | cons a rest ih =>
    rw [List.mem_cons, not_or] at h
    rw [cut, if_neg (Ne.symm h.1), ih h.2]
    rfl

theorem cut_cases (sep : α) (text : List α) :
    (sep ∉ text ∧ cut sep text = none) ∨
      ∃ before after, text = before ++ sep :: after ∧ sep ∉ before ∧
        cut sep text = some (before, after) := by
  by_cases h : sep ∈ text
  · obtain ⟨before, after, rfl, hbefore⟩ := List.eq_append_cons_of_mem h
    exact .inr ⟨before, after, rfl, hbefore, cut_append hbefore after⟩
  · exact .inl ⟨h, cut_of_notMem h⟩

theorem append_of_cut {sep : α} {text before after : List α}
    (h : cut sep text = some (before, after)) : text = before ++ sep :: after := by
  rcases cut_cases sep text with ⟨-, hcut⟩ | ⟨b, a, rfl, -, hcut⟩
  · simp [h] at hcut
  · cases hcut.symm.trans h
    rfl

def dropStart? : List α → List α → Option (List α)
  | [], text => some text
  | _ :: _, [] => none
  | a :: start, b :: text => if a = b then dropStart? start text else none

theorem dropStart?_eq_none_iff (start text : List α) :
    dropStart? start text = none ↔ ¬ start <+: text := by
  induction start generalizing text with
  | nil => simp [dropStart?]
  | cons a start ih =>
    cases text with
    | nil => simp [dropStart?]
    | cons b text =>
      rw [dropStart?, List.cons_prefix_cons]
      split
      · simp [*]
      · simp [*]

theorem dropStart?_append (start text : List α) : dropStart? start (start ++ text) = some text := by
  induction start with
  | nil => rfl
  | cons a start ih => rw [List.cons_append, dropStart?, if_pos rfl, ih]

theorem append_of_dropStart? {start text after : List α} (h : dropStart? start text = some after) :
    text = start ++ after := by
  have hprefix : start <+: text := Decidable.not_not.mp fun hnot => by
    rw [(dropStart?_eq_none_iff start text).mpr hnot] at h
    cases h
  obtain ⟨rest, rfl⟩ := hprefix
  rw [dropStart?_append] at h
  rw [Option.some.inj h]

omit [DecidableEq α] in
theorem prefix_of_prefix_append {sep : α} {start : List α} (h : sep ∉ start)
    {before after : List α} (hstart : start <+: before ++ sep :: after) : start <+: before := by
  induction start generalizing before with
  | nil => exact List.nil_prefix
  | cons a start ih =>
    rw [List.mem_cons, not_or] at h
    cases before with
    | nil => exact absurd (List.cons_prefix_cons.mp hstart).1.symm h.1
    | cons b before =>
      obtain ⟨rfl, hrest⟩ := List.cons_prefix_cons.mp hstart
      exact List.cons_prefix_cons.mpr ⟨rfl, ih h.2 hrest⟩

def cutAt (mark : List α) : List α → Option (List α × List α)
  | [] => if mark.isEmpty then some ([], []) else none
  | a :: rest =>
    match dropStart? mark (a :: rest) with
    | some after => some ([], after)
    | none => (cutAt mark rest).map fun (before, after) => (a :: before, after)

-- A mark whose first part is not before it is not found too early.
theorem cutAt_append {a : α} {mark before : List α} (h : a ∉ before) (after : List α) :
    cutAt (a :: mark) (before ++ (a :: mark) ++ after) = some (before, after) := by
  induction before with
  | nil =>
    rw [List.nil_append, List.cons_append, cutAt, ← List.cons_append, dropStart?_append]
  | cons b rest ih =>
    rw [List.mem_cons, not_or] at h
    rw [List.cons_append, List.cons_append, cutAt, dropStart?, if_neg h.1, ih h.2]
    rfl

theorem append_of_cutAt {mark text before after : List α}
    (h : cutAt mark text = some (before, after)) : text = before ++ (mark ++ after) := by
  induction text generalizing before with
  | nil =>
    rw [cutAt] at h
    split at h
    · rename_i hmark
      cases h
      rw [List.isEmpty_iff.mp hmark]
      rfl
    · cases h
  | cons a rest ih =>
    rw [cutAt] at h
    split at h
    · rename_i found hdrop
      cases h
      rw [List.nil_append]
      exact append_of_dropStart? hdrop
    · obtain ⟨⟨first, last⟩, hcut, heq⟩ := Option.map_eq_some_iff.mp h
      cases heq
      rw [List.cons_append, ← ih hcut]

def byteLength : List Char → Nat
  | [] => 0
  | c :: rest => c.utf8Size + byteLength rest

theorem byteLength_append (before after : List Char) :
    byteLength (before ++ after) = byteLength before + byteLength after := by
  induction before with
  | nil => simp [byteLength]
  | cons c rest ih => simp [byteLength, ih]; omega

-- The text cut after `n` bytes, unless this is beyond its end or within a character.
def cutBytes : Nat → List Char → Option (List Char × List Char)
  | 0, text => some ([], text)
  | _ + 1, [] => none
  | n + 1, c :: rest =>
    if c.utf8Size ≤ n + 1 then
      (cutBytes (n + 1 - c.utf8Size) rest).map fun (before, after) => (c :: before, after)
    else none
termination_by _ text => text.length

theorem cutBytes_some {n : Nat} {text before after : List Char}
    (h : cutBytes n text = some (before, after)) :
    text = before ++ after ∧ byteLength before = n := by
  fun_induction cutBytes n text generalizing before after with
  | case1 text => simp at h; obtain ⟨rfl, rfl⟩ := h; simp [byteLength]
  | case2 => simp at h
  | case3 n c rest hc ih =>
    obtain ⟨⟨b, a⟩, hb, he⟩ := Option.map_eq_some_iff.1 h
    simp only [Prod.mk.injEq] at he
    obtain ⟨rfl, rfl⟩ := he
    obtain ⟨rfl, hl⟩ := ih hb
    refine ⟨rfl, ?_⟩
    simp only [byteLength, hl]
    omega
  | case4 => simp at h

theorem cutBytes_append (before after : List Char) :
    cutBytes (byteLength before) (before ++ after) = some (before, after) := by
  induction before with
  | nil => cases after <;> simp [byteLength, cutBytes]
  | cons c rest ih =>
    have hc : 0 < c.utf8Size := c.utf8Size_pos
    have hsum : byteLength (c :: rest) = c.utf8Size + byteLength rest := rfl
    obtain ⟨k, hk⟩ : ∃ k, byteLength (c :: rest) = k + 1 :=
      ⟨byteLength (c :: rest) - 1, by omega⟩
    rw [hk, List.cons_append, cutBytes, if_pos (by omega),
      show k + 1 - c.utf8Size = byteLength rest by omega, ih]
    rfl

end StatsDaemon.Text
