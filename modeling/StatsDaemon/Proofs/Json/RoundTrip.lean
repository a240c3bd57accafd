import StatsDaemon.Proofs.Json.Tokens

namespace StatsDaemon.Json

inductive Writable : Json → Prop
  | null : Writable .null
  | bool (b : Bool) : Writable (.bool b)
  | int {i : ℤ} (h : minInteger ≤ i ∧ i ≤ maxNatural) : Writable (.int i)
  | real {x : Binary64} (h : x.isFinite = true) : Writable (.real x)
  | str (s : String) : Writable (.str s)
  | arr {items : List Json} (h : ∀ item ∈ items, Writable item) : Writable (.arr items)
  | obj {fields : List (String × Json)} (h : ∀ field ∈ fields, Writable field.2) :
      Writable (.obj fields)

-- What a value can begin with: neither a blank nor the end of a list or an object.
def Starts (c : Char) : Prop :=
  isSpace c = false ∧ c ≠ ']' ∧ c ≠ '\x7d'

instance (c : Char) : Decidable (Starts c) :=
  inferInstanceAs (Decidable (_ ∧ _ ∧ _))

theorem starts_of_number {c : Char} (h : c = '-' ∨ c.isDigit = true) : Starts c := by
  rcases h with rfl | h
  · decide
  · refine ⟨Bool.eq_false_iff.mpr fun hspace => ?_, ?_, ?_⟩
    · simp only [isSpace, Bool.or_eq_true, decide_eq_true_eq] at hspace
      rcases hspace with ((rfl | rfl) | rfl) | rfl <;> exact absurd h (by decide)
    · rintro rfl
      exact absurd h (by decide)
    · rintro rfl
      exact absurd h (by decide)

theorem Spells.starts {text : List Char} {value : Json} (h : Spells text value) :
    ∃ c chars, text = c :: chars ∧ Starts c := by
  obtain ⟨c, chars, htext, hc⟩ := h.head
  exact ⟨c, chars, htext, starts_of_number hc⟩

theorem Writable.starts {j : Json} (h : Writable j) : ∃ c chars, write j = c :: chars ∧ Starts c := by
  cases h with
  | null => exact ⟨'n', _, by rw [write]; rfl, by decide⟩
  | bool b =>
    cases b with
    | true => exact ⟨'t', _, by rw [write]; rfl, by decide⟩
    | false => exact ⟨'f', _, by rw [write]; rfl, by decide⟩
  | int h =>
    rw [write]
    exact (spells_writeInt h).starts
  | real h =>
    rw [write]
    exact (spells_writeReal h).starts
  | str s => exact ⟨'"', _, by rw [write]; rfl, by decide⟩
  | arr h => exact ⟨'[', _, by rw [write], by decide⟩
  | obj h => exact ⟨'\x7b', _, by rw [write], by decide⟩

theorem starts_items {items : List Json} (hne : items ≠ []) (h : ∀ item ∈ items, Writable item) :
    ∃ c chars, writeItems items = c :: chars ∧ Starts c := by
  match items, hne with
  | [item], _ => exact (h item List.mem_cons_self).starts
  | item :: next :: others, _ =>
    obtain ⟨c, chars, htext, hc⟩ := (h item List.mem_cons_self).starts
    exact ⟨c, _, by rw [writeItems, htext, List.cons_append], hc⟩

theorem quote_fields {fields : List (String × Json)} (hne : fields ≠ []) :
    ∃ chars, writeFields fields = '"' :: chars := by
  match fields, hne with
  | [(key, value)], _ => exact ⟨_, by rw [writeFields, writeString, List.cons_append]⟩
  | (key, value) :: next :: others, _ =>
    exact ⟨_, by rw [writeFields, writeString, List.cons_append, List.cons_append]⟩

theorem skipSpace_cons {c : Char} (h : isSpace c = false) (rest : List Char) :
    skipSpace (c :: rest) = c :: rest := by
  rw [skipSpace, List.dropWhile_cons, h]
  rfl

theorem skipSpace_starts {text : List Char} (h : ∃ c chars, text = c :: chars ∧ Starts c)
    (rest : List Char) : skipSpace (text ++ rest) = text ++ rest := by
  obtain ⟨c, chars, rfl, hc⟩ := h
  exact skipSpace_cons hc.1 _

def ReadsValues (fuel : ℕ) : Prop :=
  ∀ j, Writable j → (write j).length < fuel → ∀ rest, Ends rest →
    readValue fuel (write j ++ rest) = some (j, rest)

def ReadsItems (fuel : ℕ) : Prop :=
  ∀ items, items ≠ [] → (∀ item ∈ items, Writable item) → (writeItems items).length + 1 < fuel →
    ∀ rest, readItems fuel (writeItems items ++ ']' :: rest) = some (items, rest)

def ReadsFields (fuel : ℕ) : Prop :=
  ∀ fields, fields ≠ [] → (∀ field ∈ fields, Writable field.2) →
    (writeFields fields).length + 1 < fuel →
      ∀ rest, readFields fuel (writeFields fields ++ '\x7d' :: rest) = some (fields, rest)

theorem readWord_append (word : List Char) (value : Json) (rest : List Char) :
    readWord word value (word ++ rest) = some (value, rest) := by
  have hprefix : word.isPrefixOf (word ++ rest) = true := by
    rw [List.isPrefixOf_iff_prefix]
    exact List.prefix_append _ _
  rw [readWord, if_pos hprefix, List.drop_left]

theorem readValue_spelled {text : List Char} {j : Json} (h : Spells text j) (fuel : ℕ)
    {rest : List Char} (hrest : Ends rest) : readValue (fuel + 1) (text ++ rest) = some (j, rest) := by
  have hread := h.readNumber hrest
  obtain ⟨c, chars, rfl, hc⟩ := h.head
  have hother : ∀ d, d ≠ '-' → d.isDigit = false → c ≠ d := by
    rintro d hminus hdigit rfl
    rcases hc with h | h
    · exact hminus h
    · rw [h] at hdigit
      cases hdigit
  rw [readValue] <;>
    first
    | exact hread
    | exact fun _ heq => hother _ (by decide) (by decide) (List.cons.inj heq).1

theorem readValue_arr {fuel : ℕ} (hitems : ReadsItems fuel) {items : List Json}
    (h : ∀ item ∈ items, Writable item) (hfuel : (write (.arr items)).length < fuel + 1)
    (rest : List Char) : readValue (fuel + 1) (write (.arr items) ++ rest) = some (.arr items, rest) := by
  rw [write, List.cons_append, List.append_assoc, List.singleton_append]
  rw [write, List.length_cons, List.length_append, List.length_singleton] at hfuel
  by_cases hempty : items = []
  · rw [hempty]
    rfl
  · have hread := hitems items hempty h (by omega) rest
    obtain ⟨c, chars, htext, hspace, hclose, -⟩ := starts_items hempty h
    rw [htext, List.cons_append] at hread ⊢
    rw [readValue, skipSpace_cons hspace]
    split
    · rename_i heq
      exact absurd (List.cons.inj heq).1 hclose
    · rw [hread]
      rfl

theorem readValue_obj {fuel : ℕ} (hfields : ReadsFields fuel) {fields : List (String × Json)}
    (h : ∀ field ∈ fields, Writable field.2) (hfuel : (write (.obj fields)).length < fuel + 1)
    (rest : List Char) :
    readValue (fuel + 1) (write (.obj fields) ++ rest) = some (.obj fields, rest) := by
  rw [write, List.cons_append, List.append_assoc, List.singleton_append]
  rw [write, List.length_cons, List.length_append, List.length_singleton] at hfuel
  by_cases hempty : fields = []
  · rw [hempty]
    rfl
  · have hread := hfields fields hempty h (by omega) rest
    obtain ⟨chars, htext⟩ := quote_fields hempty
    rw [htext, List.cons_append] at hread ⊢
    rw [readValue, skipSpace_cons (by decide)]
    show (readFields fuel ('"' :: (chars ++ '\x7d' :: rest))).map _ = _
    rw [hread]
    rfl

theorem reads_values_succ {fuel : ℕ} (hitems : ReadsItems fuel) (hfields : ReadsFields fuel) :
    ReadsValues (fuel + 1) := by
  intro j hj hfuel rest hrest
  cases hj with
  | null =>
    rw [write]
    exact readWord_append "null".toList .null rest
  | bool b =>
    rw [write]
    cases b with
    | true => exact readWord_append "true".toList (.bool true) rest
    | false => exact readWord_append "false".toList (.bool false) rest
  | int h =>
    rw [write]
    exact readValue_spelled (spells_writeInt h) fuel hrest
  | real h =>
    rw [write]
    exact readValue_spelled (spells_writeReal h) fuel hrest
  | str s =>
    rw [write, writeString, List.cons_append, List.append_assoc, readValue, List.singleton_append,
      readString_flatMap]
    rfl
  | arr h => exact readValue_arr hitems h hfuel rest
  | obj h => exact readValue_obj hfields h hfuel rest

theorem reads_items_succ {fuel : ℕ} (hvalues : ReadsValues fuel) (hitems : ReadsItems fuel) :
    ReadsItems (fuel + 1) := by
  intro items hne h hfuel rest
  match items, hne with
  | [item], _ =>
    have hread := hvalues item (h item List.mem_cons_self)
      (by rw [writeItems] at hfuel; omega) (']' :: rest) (ends_cons (.inr (.inl rfl)) rest)
    rw [writeItems, readItems, hread, Option.bind_eq_bind, Option.bind_some]
    dsimp only
    rw [skipSpace_cons (by decide)]
    rfl
  | item :: next :: others, _ =>
    obtain ⟨hitem, hothers⟩ := List.forall_mem_cons.mp h
    rw [writeItems, List.length_append, List.length_cons] at hfuel
    have hread := hvalues item hitem (by omega)
      (',' :: (writeItems (next :: others) ++ ']' :: rest)) (ends_cons (.inl rfl) _)
    have hmore := hitems (next :: others) (List.cons_ne_nil _ _) hothers (by omega) rest
    rw [writeItems, List.append_assoc, List.cons_append, readItems, hread, Option.bind_eq_bind,
      Option.bind_some]
    dsimp only
    rw [skipSpace_cons (by decide)]
    show (readItems fuel (skipSpace (writeItems (next :: others) ++ ']' :: rest))).bind _ = _
    rw [skipSpace_starts (starts_items (List.cons_ne_nil _ _) hothers), hmore]
    rfl

theorem reads_fields_succ {fuel : ℕ} (hvalues : ReadsValues fuel) (hfields : ReadsFields fuel) :
    ReadsFields (fuel + 1) := by
  intro fields hne h hfuel rest
  have hcolon : isSpace ':' = false := by decide
  match fields, hne with
  | [(key, value)], _ =>
    have hvalue := h (key, value) List.mem_cons_self
    rw [writeFields, List.length_append, List.length_cons] at hfuel
    have hread := hvalues value hvalue (by omega) ('\x7d' :: rest) (ends_cons (.inr (.inr rfl)) rest)
    have hbrace : isSpace '\x7d' = false := by decide
    simp only [writeFields, writeString, List.cons_append, List.append_assoc, List.nil_append,
      readFields, readString_flatMap, Option.bind_eq_bind, Option.bind_some, skipSpace_cons hcolon,
      skipSpace_starts hvalue.starts, hread, skipSpace_cons hbrace]
  | (key, value) :: next :: others, _ =>
    obtain ⟨hvalue, hothers⟩ := List.forall_mem_cons.mp h
    simp only [writeFields, List.length_append, List.length_cons] at hfuel
    have hread := hvalues value hvalue (by omega)
      (',' :: (writeFields (next :: others) ++ '\x7d' :: rest)) (ends_cons (.inl rfl) _)
    have hmore := hfields (next :: others) (List.cons_ne_nil _ _) hothers (by omega) rest
    obtain ⟨chars, htext⟩ := quote_fields (List.cons_ne_nil next others)
    rw [htext, List.cons_append] at hread hmore
    have hcomma : isSpace ',' = false := by decide
    have hquote : isSpace '"' = false := by decide
    rw [writeFields]
    simp only [writeString, List.cons_append, List.append_assoc, List.nil_append, readFields,
      htext, readString_flatMap, Option.bind_eq_bind, Option.bind_some, skipSpace_cons hcolon,
      skipSpace_starts hvalue.starts, hread, skipSpace_cons hcomma, skipSpace_cons hquote, hmore]

-- Every value needs less fuel than its text is long, and its parts need less than it.
theorem reads_all (fuel : ℕ) : ReadsValues fuel ∧ ReadsItems fuel ∧ ReadsFields fuel := by
  induction fuel with
  | zero =>
    refine ⟨fun _ _ hfuel => ?_, fun _ _ _ hfuel => ?_, fun _ _ _ hfuel => ?_⟩ <;>
      exact absurd hfuel (Nat.not_lt_zero _)
  | succ fuel ih =>
    obtain ⟨hvalues, hitems, hfields⟩ := ih
    exact ⟨reads_values_succ hitems hfields, reads_items_succ hvalues hitems,
      reads_fields_succ hvalues hfields⟩

theorem parse?_text {j : Json} (h : Writable j) : parse? j.text = some j := by
  have hread := (reads_all (j.write.length + 1)).1 j h (Nat.lt_succ_self _) [] ends_nil
  have hspace := skipSpace_starts h.starts []
  rw [List.append_nil] at hread hspace
  rw [parse?, text, String.toList_ofList, read?, hspace, hread]
  rfl

end StatsDaemon.Json
