import StatsDaemon.Line.Reader

namespace StatsDaemon.Line

def firstLine (data : List UInt8) : List UInt8 × List UInt8 :=
  (Text.cut lineBreak data).getD (data, [])

theorem length_firstLine (data : List UInt8) (h : data ≠ []) :
    (firstLine data).2.length < data.length := by
  have hpos : 0 < data.length := List.length_pos_iff.mpr h
  rcases Text.cut_cases lineBreak data with ⟨-, hcut⟩ | ⟨line, rest, hdata, -, hcut⟩
  · rw [firstLine, hcut]
    exact hpos
  · rw [firstLine, hcut, hdata, List.length_append, List.length_cons]
    simp only [Option.getD_some]
    omega

def next? (rules : Rules) (source : Option String) (data : List UInt8) :
    Option (Except Fault Record × List UInt8) :=
  if _h : data = [] then none
  else
    match readBytes rules source (firstLine data).1 with
    | some result => some (result, (firstLine data).2)
    | none => next? rules source (firstLine data).2
termination_by data.length
decreasing_by exact length_firstLine data _h

-- What comes out of a buffer that is asked until it has no more results.
inductive Gives (rules : Rules) (source : Option String) :
    List UInt8 → List (Except Fault Record) → Prop where
  | stop (data : List UInt8) (h : next? rules source data = none) : Gives rules source data []
  | next (data rest : List UInt8) (result : Except Fault Record)
    (results : List (Except Fault Record)) (h : next? rules source data = some (result, rest))
    (hrest : Gives rules source rest results) : Gives rules source data (result :: results)

variable (rules : Rules) (source : Option String)

theorem readBytes_nil : readBytes rules source [] = none := by
  have hdecode : Text.decode? [] = some [] :=
    Text.decode?_eq_some_iff.mpr (Text.encode_eq_flatMap []).symm
  rw [readBytes, hdecode]
  rfl

theorem readAll_of_notMem (line : List UInt8) (h : lineBreak ∉ line) :
    readAll rules source line = (readBytes rules source line).toList := by
  rw [readAll, Text.pieces_of_notMem h]
  cases hresult : readBytes rules source line <;> simp [hresult]

theorem readAll_append (before after : List UInt8) :
    readAll rules source (before ++ lineBreak :: after) =
      readAll rules source before ++ readAll rules source after := by
  rw [readAll, Text.pieces_append, List.filterMap_append]
  rfl

theorem readAll_nil : readAll rules source [] = [] := by
  rw [readAll_of_notMem rules source [] (by simp), readBytes_nil]
  rfl

-- The end of a buffer counts as an empty line, so the last line needs no case of its own.
theorem readAll_firstLine (data : List UInt8) :
    readAll rules source data = (readBytes rules source (firstLine data).1).toList ++
      readAll rules source (firstLine data).2 := by
  rcases Text.cut_cases lineBreak data with ⟨hline, hcut⟩ | ⟨line, rest, hdata, hline, hcut⟩
  · rw [firstLine, hcut, Option.getD_none, readAll_nil, List.append_nil]
    exact readAll_of_notMem rules source data hline
  · rw [firstLine, hcut, Option.getD_some, hdata, readAll_append, readAll_of_notMem _ _ line hline]

theorem readAll_of_next (data : List UInt8) :
    (next? rules source data = none ∧ readAll rules source data = []) ∨
      ∃ result rest, next? rules source data = some (result, rest) ∧
        rest.length < data.length ∧
        readAll rules source data = result :: readAll rules source rest := by
  fun_induction next? rules source data with
  | case1 => exact .inl ⟨rfl, readAll_nil rules source⟩
  | case2 data h result hresult =>
    refine .inr ⟨result, (firstLine data).2, rfl, length_firstLine data h, ?_⟩
    rw [readAll_firstLine, hresult]
    rfl
  | case3 data h hresult ih =>
    have hall : readAll rules source data = readAll rules source (firstLine data).2 := by
      rw [readAll_firstLine, hresult]
      rfl
    rw [hall]
    rcases ih with hnone | ⟨result, rest, hnext, hlength, hrest⟩
    · exact .inl hnone
    · exact .inr ⟨result, rest, hnext, Nat.lt_trans hlength (length_firstLine data h), hrest⟩

-- Every result uses up a part of the buffer, so the results come to an end.
theorem gives_readAll (data : List UInt8) :
    Gives rules source data (readAll rules source data) := by
  induction hn : data.length using Nat.strongRecOn generalizing data with
  | ind n ih =>
    rcases readAll_of_next rules source data with ⟨hnext, hall⟩ | ⟨result, rest, hnext, hlt, hall⟩
    · rw [hall]
      exact .stop data hnext
    · rw [hall]
      exact .next data rest result _ hnext (ih rest.length (hn ▸ hlt) rest rfl)

theorem gives_iff (data : List UInt8) (results : List (Except Fault Record)) :
    Gives rules source data results ↔ results = readAll rules source data := by
  constructor
  · intro h
    induction h with
    | stop data hnone =>
      rcases readAll_of_next rules source data with ⟨-, hall⟩ | ⟨result, rest, hnext, -⟩
      · exact hall.symm
      · exact absurd (hnone.symm.trans hnext) (by simp)
    | next data rest result results hsome _ ih =>
      rcases readAll_of_next rules source data with ⟨hnext, -⟩ | ⟨other, left, hnext, -, hall⟩
      · exact absurd (hsome.symm.trans hnext) (by simp)
      · obtain ⟨rfl, rfl⟩ := Prod.mk.inj (Option.some.inj (hsome.symm.trans hnext))
        rw [hall, ih]
  · rintro rfl
    exact gives_readAll rules source data

theorem readAll_intercalate (lines : List (List UInt8)) :
    readAll rules source ([lineBreak].intercalate lines) =
      lines.flatMap (readAll rules source) := by
  induction lines with
  | nil => exact readAll_nil rules source
  | cons line rest ih =>
    cases rest with
    | nil => simp
    | cons other more =>
      rw [List.intercalate_cons_cons, List.append_assoc, List.singleton_append, readAll_append, ih]
      rfl

@[simp] theorem dropReturn_append_return (kept : List Char) :
    dropReturn (kept ++ ['\r']) = kept := by
  simp [dropReturn]

theorem dropReturn_of_ne {text : List Char} (h : text.getLast? ≠ some '\r') :
    dropReturn text = text :=
  if_neg h

theorem readBytes_encode (text : List Char) :
    readBytes rules source (Text.encode text) =
      if dropReturn text = [] then none else some (read rules source (dropReturn text)) := by
  rw [readBytes, Text.decode?_eq_some_iff.mpr rfl]
  simp only [List.isEmpty_iff]

theorem readBytes_invalid (line : List UInt8) (h : ∀ text, line ≠ Text.encode text) :
    readBytes rules source line = some (.error .invalidUtf8) := by
  rw [readBytes, Text.decode?_eq_none_iff.mpr h]

theorem encode_return : Text.encode ['\r'] = [13] :=
  Text.encode_eq_flatMap ['\r']

theorem lines_read_apart :
    (∀ data results, Gives rules source data results ↔ results = readAll rules source data) ∧
    (∀ before after, readAll rules source (before ++ lineBreak :: after) =
      readAll rules source before ++ readAll rules source after) ∧
    (∀ lines, readAll rules source ([lineBreak].intercalate lines) =
      lines.flatMap (readAll rules source)) ∧
    ∀ line, lineBreak ∉ line →
      (line = [] ∨ line = [13] → readAll rules source line = []) ∧
      ((∀ text, line ≠ Text.encode text) →
        readAll rules source line = [.error .invalidUtf8]) ∧
      ∀ text, line = Text.encode text → text ≠ [] →
        (text.getLast? ≠ some '\r' → readAll rules source line = [read rules source text]) ∧
        ∀ kept, kept ≠ [] → text = kept ++ ['\r'] →
          readAll rules source line = [read rules source kept] := by
  refine ⟨gives_iff rules source, readAll_append rules source, readAll_intercalate rules source,
    fun line hline => ?_⟩
  have hall := readAll_of_notMem rules source line hline
  refine ⟨fun hblank => ?_, fun hinvalid => ?_, fun text htext hne => ⟨fun hlast => ?_, ?_⟩⟩
  · rcases hblank with rfl | rfl
    · exact readAll_nil rules source
    · rw [hall, ← encode_return, readBytes_encode]
      rfl
  · rw [hall, readBytes_invalid rules source line hinvalid]
    rfl
  · rw [hall, htext, readBytes_encode, dropReturn_of_ne hlast, if_neg hne]
    rfl
  · rintro kept hkept rfl
    rw [hall, htext, readBytes_encode, dropReturn_append_return, if_neg hkept]
    rfl

-- A byte that begins no character, a lone carriage return, and a line that ends in one.
theorem odd_lines_read_apart :
    (lineBreak ∉ [255] ∧ (∀ text, [255] ≠ Text.encode text) ∧
      readAll {} none [255] = [.error .invalidUtf8]) ∧
    (lineBreak ∉ [13] ∧ readAll {} none [13] = []) ∧
    lineBreak ∉ Text.encode ['x', '\r'] ∧
    readAll {} none (Text.encode ['x', '\r']) = [read {} none ['x']] := by
  have hbytes : lineBreak ∉ Text.encode ['x', '\r'] := by
    rw [Text.encode_eq_flatMap]
    decide
  have hinvalid : ∀ text, [255] ≠ Text.encode text := Text.decode?_eq_none_iff.mp (by decide)
  obtain ⟨-, -, -, hline⟩ := lines_read_apart {} none
  have hx := ((hline _ hbytes).2.2 ['x', '\r'] rfl (by decide)).2 ['x'] (by decide) rfl
  exact ⟨⟨by decide, hinvalid, (hline [255] (by decide)).2.1 hinvalid⟩,
    ⟨by decide, (hline [13] (by decide)).1 (.inr rfl)⟩, hbytes, hx⟩

end StatsDaemon.Line
