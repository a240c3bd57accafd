namespace StatsDaemon.Text

def place (text : String) : List String → List String
  | [] => [text]
  | first :: rest => if first < text then first :: place text rest else text :: first :: rest

def sort (texts : List String) : List String :=
  texts.foldr place []

def dedup : List String → List String
  | [] => []
  | text :: rest => if rest.head? = some text then dedup rest else text :: dedup rest

theorem mem_place {text other : String} {texts : List String} :
    other ∈ place text texts ↔ other = text ∨ other ∈ texts := by
  induction texts with
  | nil => simp [place]
  | cons first rest ih =>
    simp only [place]
    split
    · simp only [List.mem_cons, ih]
      exact or_left_comm
    · exact List.mem_cons

theorem mem_sort {text : String} {texts : List String} : text ∈ sort texts ↔ text ∈ texts := by
  induction texts with
  | nil => rfl
  | cons first rest ih =>
    rw [List.mem_cons, ← ih]
    exact mem_place

theorem pairwise_place {text : String} {texts : List String} (h : texts.Pairwise (· ≤ ·)) :
    (place text texts).Pairwise (· ≤ ·) := by
  induction texts with
  | nil => simp [place]
  | cons first rest ih =>
    obtain ⟨hfirst, hrest⟩ := List.pairwise_cons.1 h
    simp only [place]
    split
    · rename_i hlt
      refine List.pairwise_cons.2 ⟨fun other hother => ?_, ih hrest⟩
      rcases mem_place.1 hother with rfl | hmem
      · exact Std.le_of_lt hlt
      · exact hfirst other hmem
    · rename_i hnot
      have hle : text ≤ first := String.not_lt.1 hnot
      refine List.pairwise_cons.2 ⟨fun other hother => ?_, h⟩
      rcases List.mem_cons.1 hother with rfl | hmem
      · exact hle
      · exact String.le_trans hle (hfirst other hmem)

theorem pairwise_sort (texts : List String) : (sort texts).Pairwise (· ≤ ·) := by
  induction texts with
  | nil => exact .nil
  | cons first rest ih => exact pairwise_place ih

theorem mem_dedup {text : String} {texts : List String} : text ∈ dedup texts ↔ text ∈ texts := by
  induction texts with
  | nil => rfl
  | cons first rest ih =>
    simp only [dedup]
    split
    · rename_i hhead
      rw [ih, List.mem_cons]
      exact ⟨.inr, fun h => h.elim (fun heq => heq ▸ List.mem_of_mem_head? hhead) id⟩
    · rw [List.mem_cons, List.mem_cons, ih]

-- Of sorted texts only neighbours can be the same.
theorem dedup_increasing {texts : List String} (h : texts.Pairwise (· ≤ ·)) :
    (dedup texts).Pairwise (· < ·) := by
  induction texts with
  | nil => exact .nil
  | cons first rest ih =>
    obtain ⟨hfirst, hrest⟩ := List.pairwise_cons.1 h
    simp only [dedup]
    split
    · exact ih hrest
    · rename_i hhead
      refine List.pairwise_cons.2 ⟨fun other hother => ?_, ih hrest⟩
      have hmem := mem_dedup.1 hother
      refine Std.lt_of_le_of_ne (hfirst other hmem) ?_
      rintro rfl
      cases rest with
      | nil => cases hmem
      | cons second others =>
        -- What is between two equal texts is the same as well.
        have hsecond : second ≤ first := by
          rcases List.mem_cons.1 hmem with rfl | hothers
          · exact String.le_refl first
          · exact (List.pairwise_cons.1 hrest).1 first hothers
        have hsame := String.le_antisymm hsecond (hfirst second List.mem_cons_self)
        exact hhead (congrArg some hsame)

-- Where a text is in an increasing list and that it is there, or where it belongs and that it is
-- not. Half of the list is left out at each step.
def search (text : String) (texts : List String) : Nat × Bool :=
  let half := texts.length / 2
  match _h : texts[half]? with
  | none => (0, false)
  | some found =>
    if text = found then (half, true)
    else if text < found then search text (texts.take half)
    else
      let (i, isThere) := search text (texts.drop (half + 1))
      (half + 1 + i, isThere)
termination_by texts.length
decreasing_by
  all_goals
    have hlt := (List.getElem?_eq_some_iff.1 _h).1
    simp only [List.length_take, List.length_drop]
    omega

structure Belongs (text : String) (texts : List String) (i : Nat) : Prop where
  le : i ≤ texts.length
  before : ∀ other ∈ texts.take i, other < text
  after : ∀ other ∈ texts.drop i, text < other

namespace Belongs

variable {text : String} {texts : List String} {n i : Nat}

theorem of_take (h : Belongs text (texts.take n) i) (hrest : ∀ other ∈ texts.drop n, text < other) :
    Belongs text texts i := by
  have hle := h.le
  rw [List.length_take] at hle
  refine ⟨by omega, fun other hother => h.before other ?_, fun other hother => ?_⟩
  · rwa [List.take_take, Nat.min_eq_left (by omega)]
  · rw [← List.take_append_drop n texts, List.drop_append_of_le_length h.le,
      List.mem_append] at hother
    exact hother.elim (h.after other) (hrest other)

theorem of_drop (h : Belongs text (texts.drop n) i) (hn : n ≤ texts.length)
    (hfirst : ∀ other ∈ texts.take n, other < text) : Belongs text texts (n + i) := by
  have hle := h.le
  rw [List.length_drop] at hle
  refine ⟨by omega, fun other hother => ?_, fun other hother => h.after other ?_⟩
  · rw [List.take_add, List.mem_append] at hother
    exact hother.elim (hfirst other) (h.before other)
  · rwa [List.drop_drop]

theorem increasing (h : Belongs text texts i) (htexts : texts.Pairwise (· < ·)) :
    (texts.take i ++ text :: texts.drop i).Pairwise (· < ·) := by
  refine List.pairwise_append.2 ⟨htexts.sublist (List.take_sublist i texts),
    List.pairwise_cons.2 ⟨h.after, htexts.sublist (List.drop_sublist i texts)⟩, ?_⟩
  intro less hless other hother
  have hlt := h.before less hless
  rcases List.mem_cons.1 hother with rfl | hgreater
  · exact hlt
  · exact String.lt_trans hlt (h.after other hgreater)

end Belongs

theorem mem_of_search {text : String} {texts : List String} (h : (search text texts).2 = true) :
    text ∈ texts := by
  fun_induction search text texts with
  | case1 => cases h
  | case2 texts half hhalf => exact List.mem_of_getElem? hhalf
  | case3 texts half found hhalf hne hlt ih => exact List.mem_of_mem_take (ih h)
  | case4 texts half found hhalf hne hge i isThere hsearch ih =>
    rw [hsearch] at ih
    exact List.mem_of_mem_drop (ih h)

theorem belongs_of_search {text : String} {texts : List String} (htexts : texts.Pairwise (· < ·))
    (h : (search text texts).2 = false) : Belongs text texts (search text texts).1 := by
  fun_induction search text texts with
  | case1 texts half hhalf =>
    have hle := List.getElem?_eq_none_iff.1 hhalf
    obtain rfl := List.length_eq_zero_iff.1 (by omega : texts.length = 0)
    exact ⟨Nat.le_refl _, by simp, by simp⟩
  | case2 => cases h
  | case3 texts half found hhalf hne hlt ih =>
    obtain ⟨hin, rfl⟩ := List.getElem?_eq_some_iff.1 hhalf
    have hgreater : ∀ other ∈ texts.drop half, text < other := by
      have hdrop := htexts.sublist (List.drop_sublist half texts)
      rw [List.drop_eq_getElem_cons hin] at hdrop ⊢
      intro other hother
      rcases List.mem_cons.1 hother with rfl | hother
      · exact hlt
      · exact String.lt_trans hlt ((List.pairwise_cons.1 hdrop).1 other hother)
    exact (ih (htexts.sublist (List.take_sublist half texts)) h).of_take hgreater
  | case4 texts half found hhalf hne hge i isThere hsearch ih =>
    obtain ⟨hin, rfl⟩ := List.getElem?_eq_some_iff.1 hhalf
    have hgt : texts[half] < text :=
      Std.lt_of_le_of_ne (String.not_lt.1 hge) (fun heq => hne heq.symm)
    have hless : ∀ other ∈ texts.take (half + 1), other < text := by
      intro other hother
      rw [List.take_succ_eq_append_getElem hin, List.mem_append, List.mem_singleton] at hother
      rcases hother with hother | rfl
      · have hsplit := htexts
        rw [← List.take_append_drop half texts, List.drop_eq_getElem_cons hin,
          List.pairwise_append] at hsplit
        exact String.lt_trans (hsplit.2.2 other hother _ List.mem_cons_self) hgt
      · exact hgt
    rw [hsearch] at ih
    exact (ih (htexts.sublist (List.drop_sublist _ texts)) h).of_drop hin hless

end StatsDaemon.Text
