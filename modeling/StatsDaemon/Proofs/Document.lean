import Mathlib
import StatsDaemon.Document

namespace StatsDaemon.Document

variable {δ : Type}

def present (entries : List (String × Option δ)) : List (String × δ) :=
  entries.flatMap fun (name, value) => value.elim [] fun v => [(name, v)]

theorem present_nil : present ([] : List (String × Option δ)) = [] :=
  rfl

theorem present_cons (name : String) (value : Option δ) (entries : List (String × Option δ)) :
    present ((name, value) :: entries) = (value.elim [] fun v => [(name, v)]) ++ present entries :=
  rfl

theorem name_of_mem_present {entries : List (String × Option δ)} {field : String × δ}
    (h : field ∈ present entries) : field.1 ∈ entries.map Prod.fst := by
  obtain ⟨⟨name, value⟩, hentry, hfield⟩ := List.mem_flatMap.mp h
  cases value with
  | none => cases hfield
  | some v =>
    rw [List.mem_singleton.mp hfield]
    exact List.mem_map.mpr ⟨_, hentry, rfl⟩

theorem filter_present {entries : List (String × Option δ)} (h : (entries.map Prod.fst).Nodup)
    {name : String} {value : Option δ} (hmem : (name, value) ∈ entries) :
    (present entries).filter (·.1 == name) = value.elim [] fun v => [(name, v)] := by
  induction entries with
  | nil => cases hmem
  | cons entry rest ih =>
    obtain ⟨other, value'⟩ := entry
    obtain ⟨hnew, hrest⟩ := List.nodup_cons.mp h
    rw [present_cons, List.filter_append]
    rcases List.mem_cons.mp hmem with heq | hmem
    · obtain ⟨rfl, rfl⟩ := Prod.mk.inj heq
      have hnone : (present rest).filter (·.1 == name) = [] := by
        rw [List.filter_eq_nil_iff]
        intro field hfield hname
        exact hnew (eq_of_beq hname ▸ name_of_mem_present hfield)
      rw [hnone, List.append_nil]
      cases value with
      | none => rfl
      | some v => simp
    · have hne : other ≠ name := by
        rintro rfl
        exact hnew (List.mem_map.mpr ⟨_, hmem, rfl⟩)
      have hother : (value'.elim [] fun v => [(other, v)]).filter (·.1 == name) = [] := by
        cases value' with
        | none => rfl
        | some v => simp [hne]
      rw [hother, List.nil_append, ih hrest hmem]

theorem record?_present [Document δ] {d : δ} {entries : List (String × Option δ)}
    (hpositions : positions? d = none) (hfields : fields? d = some (present entries))
    (h : (entries.map Prod.fst).Nodup) :
    record? (entries.map Prod.fst) d = some (entries.map Prod.snd) := by
  have honce : ((entries.map Prod.fst).any fun name =>
      decide (1 < ((present entries).filter (·.1 == name)).length)) = false := by
    rw [List.any_eq_false]
    intro name hname
    obtain ⟨⟨_, value⟩, hmem, rfl⟩ := List.mem_map.mp hname
    rw [filter_present h hmem]
    cases value <;> simp
  have hvalues : ((entries.map Prod.fst).map fun name =>
      ((present entries).find? (·.1 == name)).map Prod.snd) = entries.map Prod.snd := by
    rw [List.map_map]
    refine List.map_congr_left fun entry hentry => ?_
    rw [Function.comp_apply, ← List.head?_filter, filter_present h hentry]
    cases entry.2 <;> rfl
  rw [record?, hpositions]
  simp only [hfields, Option.bind_eq_bind, Option.bind_some, honce, hvalues, Bool.false_eq_true,
    if_false]

theorem record?_zip [Document δ] {d : δ} {names : List String} {values : List (Option δ)}
    (hnames : names.Nodup) (hlength : names.length = values.length)
    (hpositions : positions? d = none) (hfields : fields? d = some (present (names.zip values))) :
    record? names d = some values := by
  have hfst : (names.zip values).map Prod.fst = names := List.map_fst_zip (Nat.le_of_eq hlength)
  have hsnd : (names.zip values).map Prod.snd = values := List.map_snd_zip (Nat.le_of_eq hlength.symm)
  have hrecord := record?_present hpositions hfields (hfst.symm ▸ hnames)
  rwa [hfst, hsnd] at hrecord

theorem record?_obj {j : Json} {names : List String} {values : List (Option Json)}
    (hnames : names.Nodup) (hlength : names.length = values.length)
    (hfields : j = .obj (present (names.zip values))) : record? names j = some values := by
  subst hfields
  exact record?_zip hnames hlength rfl rfl

theorem mapM_map {β γ : Type} {xs : List β} {write : β → γ} {read : γ → Option β}
    (h : ∀ x ∈ xs, read (write x) = some x) : (xs.map write).mapM read = some xs := by
  induction xs with
  | nil => rfl
  | cons x xs ih =>
    obtain ⟨hx, hxs⟩ := List.forall_mem_cons.mp h
    rw [List.map_cons, List.mapM_cons, hx, ih hxs]
    rfl

theorem list?_map [Document δ] {β : Type} {d : δ} {xs : List β} {write : β → δ}
    {read : δ → Option β} (hitems : items? d = some (xs.map write))
    (h : ∀ x ∈ xs, read (write x) = some x) : list? read d = some xs := by
  rw [list?, hitems]
  exact mapM_map h

theorem optional_some [Document δ] {β : Type} {read : δ → Option β} {d : δ} {v : β}
    (hpresent : isAbsent d = false) (hread : read d = some v) :
    optional read (some d) = some (some v) := by
  show (if isAbsent d = true then some none else (read d).map some) = _
  rw [hpresent, hread]
  rfl

theorem optional_map [Document δ] {β : Type} {write : β → δ} {read : δ → Option β}
    {value : Option β} (h : ∀ v ∈ value, isAbsent (write v) = false ∧ read (write v) = some v) :
    optional read (value.map write) = some value := by
  cases value with
  | none => rfl
  | some v =>
    obtain ⟨hpresent, hread⟩ := h v rfl
    exact optional_some hpresent hread

-- Values without numbers. A section that says by itself what it is has no others.
inductive Literal : Json → Prop
  | bool (b : Bool) : Literal (.bool b)
  | str (s : String) : Literal (.str s)
  | arr {items : List Json} (h : ∀ item ∈ items, Literal item) : Literal (.arr items)
  | obj {fields : List (String × Json)} (h : ∀ field ∈ fields, Literal field.2) :
      Literal (.obj fields)

-- Trees that stand for JSON values: asked for what a value is, its tree gives this.
structure Stands [Document δ] (tree : Json → δ) : Prop where
  text (s : String) : text? (tree (.str s)) = some s
  natural {n : Nat} (h : n < 2 ^ 64) : natural? (tree (.ofNat n)) = some n
  real {x : Binary64} (h : x.isFinite = true) : real? (tree (.real x)) = some x
  flag (b : Bool) : flag? (tree (.bool b)) = some b
  choice (s : String) : choice? (tree (.str s)) = some s
  items (items : List Json) : items? (tree (.arr items)) = some (items.map tree)
  fields (fields : List (String × Json)) :
    fields? (tree (.obj fields)) = some (fields.map fun (name, value) => (name, tree value))
  positions (fields : List (String × Json)) : positions? (tree (.obj fields)) = none
  absent_null : isAbsent (tree .null) = true
  absent_text (s : String) : isAbsent (tree (.str s)) = false
  absent_natural (n : Nat) : isAbsent (tree (.ofNat n)) = false
  absent_record (fields : List (String × Json)) : isAbsent (tree (.obj fields)) = false
  content {j : Json} (h : Literal j) : content? (tree j) = some j

theorem stands_json : Stands (id : Json → Json) where
  text _ := rfl
  natural _ := if_pos (Int.natCast_nonneg _)
  real _ := rfl
  flag _ := rfl
  choice _ := rfl
  items items := congrArg some (List.map_id items).symm
  fields fields := congrArg some (List.map_id fields).symm
  positions _ := rfl
  absent_null := rfl
  absent_text _ := rfl
  absent_natural _ := rfl
  absent_record _ := rfl
  content _ := rfl

theorem map_present {ε : Type} (f : δ → ε) (entries : List (String × Option δ)) :
    (present entries).map (fun (name, value) => (name, f value)) =
      present (entries.map fun (name, value) => (name, value.map f)) := by
  induction entries with
  | nil => rfl
  | cons entry rest ih =>
    obtain ⟨name, value⟩ := entry
    rw [present_cons, List.map_append, ih, List.map_cons, present_cons]
    cases value <;> rfl

namespace Stands

variable [Document δ] {tree : Json → δ} (h : Stands tree)

include h

theorem record (j : Json) (names : List String) (values : List (Option Json))
    (hnames : names.Nodup) (hlength : names.length = values.length)
    (hfields : j = .obj (present (names.zip values))) :
    record? names (tree j) = some (values.map (Option.map tree)) := by
  subst hfields
  refine record?_zip hnames (by rw [hlength, List.length_map]) (h.positions _) ?_
  rw [h.fields, map_present, List.zip_map_right]
  rfl

theorem list {β : Type} {xs : List β} {write : β → Json} {read : δ → Option β}
    (hread : ∀ x ∈ xs, read (tree (write x)) = some x) :
    list? read (tree (.arr (xs.map write))) = some xs := by
  have hitems : items? (tree (.arr (xs.map write))) = some (xs.map (tree ∘ write)) := by
    rw [h.items, List.map_map]
  exact list?_map hitems hread

theorem texts (items : List String) : texts? (tree (.strings items)) = some items :=
  h.list fun s _ => h.text s

theorem optionalText (s : Option String) :
    optional text? (some (tree (.ofString? s))) = some s := by
  cases s with
  | none => exact if_pos h.absent_null
  | some s => exact optional_some (h.absent_text s) (h.text s)

theorem choose {β : Type} {ofName? : String → Option β} {name : String} {value : β}
    (hname : ofName? name = some value) : choose? ofName? (tree (.str name)) = some value := by
  rw [choose?, h.choice, Option.bind_some, hname]

theorem typed (name : String) {fields : List (String × Json)}
    (hnames : ∀ field ∈ fields, field.1 ≠ "type") (hfields : ∀ field ∈ fields, Literal field.2) :
    typed? (tree (.obj (("type", .str name) :: fields))) = some (name, .obj fields) := by
  have hliteral : Literal (.obj (("type", .str name) :: fields)) :=
    .obj (List.forall_mem_cons.mpr ⟨.str name, hfields⟩)
  have hcontent := h.content hliteral
  have htype : ((("type", Json.str name) :: fields).map fun (n, value) => (n, tree value)).filter
      (·.1 == "type") = [("type", tree (.str name))] := by
    refine congrArg (("type", tree (.str name)) :: ·) (List.filter_eq_nil_iff.mpr ?_)
    intro field hfield htype
    obtain ⟨source, hsource, rfl⟩ := List.mem_map.mp hfield
    exact hnames source hsource (eq_of_beq htype)
  have hrest : (("type", Json.str name) :: fields).filter (·.1 != "type") = fields := by
    show fields.filter (·.1 != "type") = fields
    rw [List.filter_eq_self]
    exact fun field hfield => bne_iff_ne.mpr (hnames field hfield)
  rw [typed?, hcontent, Option.bind_eq_bind, Option.bind_some]
  simp only [h.fields, Option.bind_eq_bind, Option.bind_some, htype, h.text, hrest]

end Stands

end StatsDaemon.Document
