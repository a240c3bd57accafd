import StatsDaemon.Proofs.Line.Isolation
import StatsDaemon.Receiver.Framing

namespace StatsDaemon.Receiver.Framing

-- The lines of a stream: those that end in a line break, and the rest unless it is empty.
def linesOf (stream : List UInt8) : List (List UInt8) :=
  let parts := Text.pieces lineBreak stream
  parts.dropLast ++ parts.getLast?.toList.filter (· ≠ [])

def itemOf (limit : Nat) (line : List UInt8) : Item :=
  if line.length ≤ limit then .line line else .tooLong

def itemsOf (limit : Nat) (stream : List UInt8) : List Item :=
  (linesOf stream).map (itemOf limit)

def afterBreak (stream : List UInt8) : List UInt8 :=
  match Text.cut lineBreak stream with
  | some (_, rest) => rest
  | none => []

theorem linesOf_append {line : List UInt8} (h : lineBreak ∉ line) (rest : List UInt8) :
    linesOf (line ++ lineBreak :: rest) = line :: linesOf rest := by
  have hrest := Text.pieces_ne_nil lineBreak rest
  rw [linesOf, Text.pieces_append, Text.pieces_of_notMem h, List.singleton_append]
  rw [List.dropLast_cons_of_ne_nil hrest, List.getLast?_cons_of_ne_nil hrest, List.cons_append]
  rfl

theorem linesOf_of_notMem {stream : List UInt8} (h : lineBreak ∉ stream) :
    linesOf stream = if stream = [] then [] else [stream] := by
  simp only [linesOf, Text.pieces_of_notMem h]
  split <;> simp_all

theorem afterBreak_append {line : List UInt8} (h : lineBreak ∉ line) (rest : List UInt8) :
    afterBreak (line ++ lineBreak :: rest) = rest := by
  rw [afterBreak, Text.cut_append h]

theorem afterBreak_of_notMem {stream : List UInt8} (h : lineBreak ∉ stream) :
    afterBreak stream = [] := by
  rw [afterBreak, Text.cut_of_notMem h]

theorem afterBreak_skip {front : List UInt8} (h : lineBreak ∉ front) (stream : List UInt8) :
    afterBreak (front ++ stream) = afterBreak stream := by
  rcases Text.cut_cases lineBreak stream with ⟨hstream, -⟩ | ⟨line, rest, rfl, hline, -⟩
  · rw [afterBreak_of_notMem hstream, afterBreak_of_notMem (by simp [h, hstream])]
  · rw [afterBreak_append hline, ← List.append_assoc, afterBreak_append (by simp [h, hline])]

@[simp] theorem itemsOf_nil (limit : Nat) : itemsOf limit [] = [] := by
  rw [itemsOf, linesOf_of_notMem (by simp)]
  rfl

theorem itemsOf_line {limit : Nat} {line : List UInt8} (h : lineBreak ∉ line)
    (hlength : line.length ≤ limit) (rest : List UInt8) :
    itemsOf limit (line ++ lineBreak :: rest) = .line line :: itemsOf limit rest := by
  rw [itemsOf, linesOf_append h, List.map_cons, itemOf, if_pos hlength]
  rfl

-- One byte more than the limit without a line break is enough to know that the line is too long.
theorem itemsOf_tooLong {limit : Nat} {front : List UInt8} (h : lineBreak ∉ front)
    (hlength : limit < front.length) (stream : List UInt8) :
    itemsOf limit (front ++ stream) = .tooLong :: itemsOf limit (afterBreak (front ++ stream)) := by
  rcases Text.cut_cases lineBreak (front ++ stream) with ⟨hnone, -⟩ | ⟨line, rest, heq, hline, -⟩
  · have hne : front ++ stream ≠ [] := by
      intro hnil
      rw [(List.append_eq_nil_iff.mp hnil).1] at hlength
      cases hlength
    have hlong : ¬ (front ++ stream).length ≤ limit := by
      rw [List.length_append]
      omega
    rw [afterBreak_of_notMem hnone, itemsOf_nil, itemsOf, linesOf_of_notMem hnone, if_neg hne,
      List.map_singleton, itemOf, if_neg hlong]
  · -- The line goes on at least to the end of the bytes that are known.
    have hlong : ¬ line.length ≤ limit := by
      intro hle
      have hget : front[line.length]? = some lineBreak := by
        rw [← List.getElem?_append_left (by omega), heq]
        simp
      exact h (List.mem_of_getElem? hget)
    rw [heq, afterBreak_append hline, itemsOf, linesOf_append hline, List.map_cons, itemOf,
      if_neg hlong]
    rfl

structure Sound (f : Framing) : Prop where
  searched_le : f.searched ≤ f.buffer.length
  searched : lineBreak ∉ f.buffer.take f.searched

-- The items that are still to come, when these bytes come later.
def expected (f : Framing) (later : List UInt8) : List Item :=
  itemsOf f.limit (if f.discarding then afterBreak (f.buffer ++ later) else f.buffer ++ later)

-- Every item makes this smaller: it uses bytes up, or says once that a line is too long.
def size (f : Framing) : Nat :=
  2 * f.buffer.length + if f.discarding then 0 else 1

-- A step that takes an item, or none. Nothing of what is to come is lost or added.
structure Yields (later : List UInt8) (f g : Framing) (item? : Option Item) : Prop where
  sound : g.Sound
  limit : g.limit = f.limit
  expected : f.expected later = item?.toList ++ g.expected later
  size : g.size + item?.toList.length ≤ f.size

structure Waits (f : Framing) : Prop where
  unbroken : lineBreak ∉ f.buffer
  short : f.buffer.length ≤ f.limit
  dropped : f.discarding = true → f.buffer = []

theorem sound_ofLimit (limit : Nat) : (ofLimit limit).Sound :=
  ⟨Nat.zero_le _, by simp [ofLimit]⟩

theorem expected_ofLimit (limit : Nat) (stream : List UInt8) :
    (ofLimit limit).expected stream = itemsOf (max limit 1) stream := by
  simp [expected, ofLimit]

theorem Sound.receive {f : Framing} (h : f.Sound) (chunk : List UInt8) :
    { f with buffer := f.buffer ++ chunk }.Sound := by
  refine ⟨?_, ?_⟩
  · have hle := h.searched_le
    simp only [List.length_append]
    omega
  · rw [List.take_append_of_le_length h.searched_le]
    exact h.searched

theorem expected_receive (f : Framing) (chunk later : List UInt8) :
    { f with buffer := f.buffer ++ chunk }.expected later = f.expected (chunk ++ later) := by
  simp only [expected, List.append_assoc]

theorem sound_advance (f : Framing) (count : Nat) : (f.advance count).Sound :=
  ⟨Nat.zero_le _, by simp [advance]⟩

-- The search goes on where it stopped, and finds what a search of the whole window finds.
theorem breakAt?_cases {f : Framing} (h : f.Sound) :
    (lineBreak ∉ f.buffer.take f.window ∧ f.breakAt? = none) ∨
      ∃ line rest, f.buffer = line ++ lineBreak :: rest ∧ lineBreak ∉ line ∧
        line.length ≤ f.limit ∧ f.breakAt? = some line.length := by
  have hbuffer := List.take_append_drop f.window f.buffer
  rcases Text.cut_cases lineBreak (f.buffer.take f.window) with
    ⟨hnone, -⟩ | ⟨line, rest, hfront, hline, -⟩
  · refine .inl ⟨hnone, ?_⟩
    rw [breakAt?, Option.map_eq_none_iff, List.findIdx?_eq_none_iff]
    intro b hb
    exact beq_eq_false_iff_ne.mpr fun heq => hnone (heq ▸ List.mem_of_mem_drop hb)
  · rw [hfront, List.append_assoc, List.cons_append] at hbuffer
    refine .inr ⟨line, _, hbuffer.symm, hline, ?_, ?_⟩
    · have hlength := congrArg List.length hfront
      simp only [List.length_take, window, List.length_append, List.length_cons] at hlength
      omega
    · -- The line break was not in the part that was searched.
      have hsearched : f.searched ≤ line.length := by
        refine Nat.le_of_not_lt fun hlt => h.searched ?_
        have hget : (f.buffer.take f.searched)[line.length]? = some lineBreak := by
          rw [List.getElem?_take_of_lt hlt, ← hbuffer]
          simp
        exact List.mem_of_getElem? hget
      have hskipped : lineBreak ∉ line.drop f.searched := fun hmem =>
        hline (List.mem_of_mem_drop hmem)
      have hfind : ((f.buffer.take f.window).drop f.searched).findIdx? (· == lineBreak) =
          some (line.length - f.searched) := by
        rw [hfront, List.drop_append_of_le_length hsearched, List.findIdx?_append]
        have hnone : (line.drop f.searched).findIdx? (· == lineBreak) = none := by
          rw [List.findIdx?_eq_none_iff]
          exact fun b hb => beq_eq_false_iff_ne.mpr fun heq => hskipped (heq ▸ hb)
        simp [hnone, List.findIdx?_cons]
      rw [breakAt?, hfind, Option.map_some, Nat.add_sub_cancel' hsearched]

theorem expected_dropFront {f : Framing} (hd : f.discarding = true)
    (hnone : lineBreak ∉ f.buffer.take f.window) (later : List UInt8) :
    f.expected later = (f.advance f.window).expected later := by
  simp only [expected, advance, hd, if_true]
  conv => lhs; rw [← List.take_append_drop f.window f.buffer, List.append_assoc,
    afterBreak_skip hnone]

theorem expected_dropLine {f : Framing} {line rest : List UInt8} (hd : f.discarding = true)
    (hbuffer : f.buffer = line ++ lineBreak :: rest) (hline : lineBreak ∉ line)
    (later : List UInt8) :
    f.expected later =
      { f.advance (line.length + 1) with discarding := false }.expected later := by
  have hrest : f.buffer.drop (line.length + 1) = rest := by simp [hbuffer]
  simp only [expected, advance, hd, if_true, Bool.false_eq_true, if_false, hrest]
  rw [hbuffer, List.append_assoc, List.cons_append, afterBreak_append hline]

theorem yields_line {f : Framing} {line rest : List UInt8} (hd : f.discarding = false)
    (hbuffer : f.buffer = line ++ lineBreak :: rest) (hline : lineBreak ∉ line)
    (hlength : line.length ≤ f.limit) (later : List UInt8) :
    Yields later f (f.advance (line.length + 1)) (some (.line line)) := by
  have hrest : f.buffer.drop (line.length + 1) = rest := by simp [hbuffer]
  refine ⟨sound_advance f _, rfl, ?_, ?_⟩
  · simp only [expected, advance, hd, Bool.false_eq_true, if_false, hrest]
    rw [hbuffer, List.append_assoc, List.cons_append, itemsOf_line hline hlength]
    rfl
  · have hlengths := congrArg List.length hbuffer
    rw [List.length_append, List.length_cons] at hlengths
    simp only [size, advance, hd, hrest, Option.toList_some, List.length_singleton,
      Bool.false_eq_true, if_false]
    omega

theorem yields_tooLong {f : Framing} (hf : f.Sound) (hd : f.discarding = false)
    (hnone : lineBreak ∉ f.buffer.take f.window) (hlong : f.limit < f.buffer.length)
    (later : List UInt8) : Yields later f { f with discarding := true } (some .tooLong) := by
  have hfront : f.limit < (f.buffer.take f.window).length := by
    simp only [List.length_take, window]
    omega
  have hitems := itemsOf_tooLong hnone hfront (f.buffer.drop f.window ++ later)
  rw [← List.append_assoc, List.take_append_drop] at hitems
  refine ⟨⟨hf.searched_le, hf.searched⟩, rfl, ?_, ?_⟩
  · simpa [expected, hd] using hitems
  · simp [size, hd]

theorem yields_none {f : Framing} (hd : f.discarding = false)
    (hnone : lineBreak ∉ f.buffer.take f.window) (hshort : ¬ f.limit < f.buffer.length)
    (later : List UInt8) :
    Yields later f { f with searched := f.window } none ∧
      { f with searched := f.window }.Waits := by
  have hwindow : f.window = f.buffer.length := by
    rw [window]
    omega
  have hall : lineBreak ∉ f.buffer := by
    rwa [hwindow, List.take_length] at hnone
  exact ⟨⟨⟨Nat.le_of_eq hwindow, hnone⟩, rfl, rfl, Nat.le_refl _⟩,
    ⟨hall, Nat.le_of_not_lt hshort, fun h => absurd h (by simp [hd])⟩⟩

-- What is dropped in front of an item does not change what is to come.
theorem Yields.skip {later : List UInt8} {f g h : Framing} {item? : Option Item}
    (hyields : Yields later g h item?) (hlimit : g.limit = f.limit)
    (hexpected : f.expected later = g.expected later) (hsize : g.size ≤ f.size) :
    Yields later f h item? :=
  ⟨hyields.sound, hyields.limit.trans hlimit, hexpected.trans hyields.expected,
    Nat.le_trans hyields.size hsize⟩

-- The rounds of one step. Each of them but the last drops bytes, so the fuel suffices.
theorem nextWith_yields (fuel : Nat) (f : Framing) (hf : f.Sound) (hfuel : f.buffer.length < fuel)
    (later : List UInt8) :
    Yields later f (nextWith fuel f).1 (nextWith fuel f).2 ∧
      ((nextWith fuel f).2 = none → (nextWith fuel f).1.Waits) := by
  induction fuel generalizing f with
  | zero => cases hfuel
  | succ fuel ih =>
    -- Two of the five rounds drop bytes of an overlong line and go on; the others end the step.
    rcases breakAt?_cases hf with ⟨hnone, hbreak⟩ | ⟨line, rest, hbuffer, hline, hlength, hbreak⟩
    · cases hd : f.discarding with
      | true =>
        have hexpected := expected_dropFront hd hnone later
        have hsize : (f.advance f.window).size ≤ f.size := by
          simp only [size, advance, List.length_drop, hd, if_true]
          omega
        by_cases hempty : (f.advance f.window).buffer = []
        · have hnext : nextWith (fuel + 1) f = (f.advance f.window, none) := by
            simp [nextWith, hbreak, hd, hempty]
          rw [hnext]
          exact ⟨⟨sound_advance f _, rfl, hexpected, hsize⟩,
            fun _ => ⟨by simp [hempty], by simp [hempty], fun _ => hempty⟩⟩
        · have hnext : nextWith (fuel + 1) f = nextWith fuel (f.advance f.window) := by
            simp [nextWith, hbreak, hd, hempty]
          have hshorter : (f.advance f.window).buffer.length < fuel := by
            have hpos := List.length_pos_iff.mpr hempty
            simp only [advance, List.length_drop, window] at hpos ⊢
            omega
          obtain ⟨hyields, hwaits⟩ := ih (f.advance f.window) (sound_advance f _) hshorter
          rw [hnext]
          exact ⟨hyields.skip rfl hexpected hsize, hwaits⟩
      | false =>
        by_cases hlong : f.limit < f.buffer.length
        · have hnext : nextWith (fuel + 1) f = ({ f with discarding := true }, some .tooLong) := by
            simp [nextWith, hbreak, hd, hlong]
          rw [hnext]
          exact ⟨yields_tooLong hf hd hnone hlong later, fun h => nomatch h⟩
        · have hnext : nextWith (fuel + 1) f = ({ f with searched := f.window }, none) := by
            simp [nextWith, hbreak, hd, hlong]
          rw [hnext]
          obtain ⟨hyields, hwaits⟩ := yields_none hd hnone hlong later
          exact ⟨hyields, fun _ => hwaits⟩
    · cases hd : f.discarding with
      | true =>
        have hnext : nextWith (fuel + 1) f =
            nextWith fuel { f.advance (line.length + 1) with discarding := false } := by
          simp [nextWith, hbreak, hd]
        have hlengths := congrArg List.length hbuffer
        rw [List.length_append, List.length_cons] at hlengths
        have hshorter : (f.advance (line.length + 1)).buffer.length < fuel := by
          simp only [advance, List.length_drop]
          omega
        have hsize : { f.advance (line.length + 1) with discarding := false }.size ≤ f.size := by
          simp only [size, advance, List.length_drop, hd, if_true, Bool.false_eq_true, if_false]
          omega
        obtain ⟨hyields, hwaits⟩ := ih { f.advance (line.length + 1) with discarding := false }
          ⟨Nat.zero_le _, by simp [advance]⟩ hshorter
        rw [hnext]
        exact ⟨hyields.skip rfl (expected_dropLine hd hbuffer hline later) hsize, hwaits⟩
      | false =>
        have hnext : nextWith (fuel + 1) f = (f.advance (line.length + 1), some (.line line)) := by
          simp [nextWith, hbreak, hd, hbuffer]
        rw [hnext]
        exact ⟨yields_line hd hbuffer hline hlength later, fun h => nomatch h⟩

theorem next_yields {f : Framing} (hf : f.Sound) (later : List UInt8) :
    Yields later f f.next.1 f.next.2 :=
  (nextWith_yields _ f hf (Nat.lt_succ_self _) later).1

theorem next_waits {f g : Framing} (hf : f.Sound) (h : f.next = (g, none)) : g.Waits := by
  have hwaits := (nextWith_yields _ f hf (Nat.lt_succ_self _) []).2
  rw [show nextWith (f.buffer.length + 1) f = (g, none) from h] at hwaits
  exact hwaits rfl

theorem Waits.yields_rest {f : Framing} (h : f.Waits) (hne : f.buffer ≠ []) :
    Yields [] f (f.advance f.buffer.length) (some (.line f.buffer)) := by
  have hd : f.discarding = false := by
    cases hd : f.discarding with
    | true => exact absurd (h.dropped hd) hne
    | false => rfl
  have hpos := List.length_pos_iff.mpr hne
  refine ⟨sound_advance f _, rfl, ?_, ?_⟩
  · simp only [expected, advance, hd, Bool.false_eq_true, if_false, List.append_nil,
      List.drop_length, itemsOf_nil]
    rw [itemsOf, linesOf_of_notMem h.unbroken, if_neg hne, List.map_singleton, itemOf,
      if_pos h.short]
    rfl
  · simp only [size, advance, hd, List.drop_length, List.length_nil, Option.toList_some,
      List.length_singleton, Bool.false_eq_true, if_false]
    omega

theorem expected_of_empty {f : Framing} (h : f.buffer = []) : f.expected [] = [] := by
  simp [expected, h, afterBreak_of_notMem]

theorem nextAtEnd_yields {f : Framing} (hf : f.Sound) :
    Yields [] f f.nextAtEnd.1 f.nextAtEnd.2 ∧
      (f.nextAtEnd.2 = none → f.nextAtEnd.1.expected [] = []) := by
  have hyields := next_yields hf []
  obtain ⟨g, item?, hnext⟩ : ∃ g item?, f.next = (g, item?) := ⟨_, _, rfl⟩
  rw [hnext] at hyields
  cases item? with
  | some item =>
    have hend : f.nextAtEnd = (g, some item) := by rw [nextAtEnd, hnext]
    rw [hend]
    exact ⟨hyields, fun h => nomatch h⟩
  | none =>
    by_cases hempty : g.buffer = []
    · have hend : f.nextAtEnd = (g, none) := by simp [nextAtEnd, hnext, hempty]
      rw [hend]
      exact ⟨hyields, fun _ => expected_of_empty hempty⟩
    · have hend : f.nextAtEnd = (g.advance g.buffer.length, some (.line g.buffer)) := by
        simp [nextAtEnd, hnext, hempty]
      rw [hend]
      exact ⟨((next_waits hf hnext).yields_rest hempty).skip hyields.limit hyields.expected
        hyields.size, fun h => nomatch h⟩

inductive Drains (take : Framing → Framing × Option Item) :
    Framing → List Item → Framing → Prop where
  | stop (f g : Framing) (h : take f = (g, none)) : Drains take f [] g
  | take (f g last : Framing) (item : Item) (items : List Item) (h : take f = (g, some item))
    (hrest : Drains take g items last) : Drains take f (item :: items) last

-- A connection with its chunks: after each of them all items are taken, and again at the end.
inductive Reads : Framing → List (List UInt8) → List Item → Prop where
  | finish (f g : Framing) (items : List Item) (h : Drains nextAtEnd f items g) : Reads f [] items
  | read (f g : Framing) (chunk : List UInt8) (items : List Item) (chunks : List (List UInt8))
    (more : List Item) (h : Drains next { f with buffer := f.buffer ++ chunk } items g)
    (hmore : Reads g chunks more) : Reads f (chunk :: chunks) (items ++ more)

section

variable {take : Framing → Framing × Option Item} {later : List UInt8}

theorem takeAll_drains (htake : ∀ f : Framing, f.Sound → Yields later f (take f).1 (take f).2)
    (fuel : Nat) (f : Framing) (hf : f.Sound) (hfuel : f.size < fuel) :
    Drains take f (takeAll take fuel f).2 (takeAll take fuel f).1 := by
  induction fuel generalizing f with
  | zero => cases hfuel
  | succ fuel ih =>
    have hyields := htake f hf
    obtain ⟨g, item?, hnext⟩ : ∃ g item?, take f = (g, item?) := ⟨_, _, rfl⟩
    rw [hnext] at hyields
    cases item? with
    | none =>
      have hall : takeAll take (fuel + 1) f = (g, []) := by rw [takeAll, hnext]
      rw [hall]
      exact .stop f g hnext
    | some item =>
      have hall : takeAll take (fuel + 1) f =
          ((takeAll take fuel g).1, item :: (takeAll take fuel g).2) := by
        rw [takeAll, hnext]
      have hsmaller := hyields.size
      simp only [Option.toList_some, List.length_singleton] at hsmaller
      rw [hall]
      exact .take f g _ item _ hnext (ih g hyields.sound (by omega))

theorem Drains.expected (htake : ∀ f : Framing, f.Sound → Yields later f (take f).1 (take f).2)
    {f last : Framing} {items : List Item} (h : Drains take f items last) (hf : f.Sound) :
    last.Sound ∧ last.limit = f.limit ∧ f.expected later = items ++ last.expected later := by
  induction h with
  | stop f g hnone =>
    have hyields := htake f hf
    rw [hnone] at hyields
    exact ⟨hyields.sound, hyields.limit, hyields.expected⟩
  | take f g last item items hsome _ ih =>
    have hyields := htake f hf
    rw [hsome] at hyields
    obtain ⟨hsound, hlimit, hexpected⟩ := ih hyields.sound
    refine ⟨hsound, hlimit.trans hyields.limit, ?_⟩
    rw [hyields.expected, hexpected]
    rfl

theorem Drains.last (htake : ∀ f : Framing, f.Sound → Yields later f (take f).1 (take f).2)
    {f last : Framing} {items : List Item} (h : Drains take f items last) (hf : f.Sound) :
    ∃ g : Framing, g.Sound ∧ take g = (last, none) := by
  induction h with
  | stop f g hnone => exact ⟨f, hf, hnone⟩
  | take f g last item items hsome _ ih =>
    have hyields := htake f hf
    rw [hsome] at hyields
    exact ih hyields.sound

end

theorem size_lt_itemBound (f : Framing) : f.size < f.itemBound := by
  simp only [size, itemBound]
  split <;> omega

theorem read_drains {f : Framing} (hf : f.Sound) (chunk : List UInt8) :
    Drains next { f with buffer := f.buffer ++ chunk } (f.read chunk).2 (f.read chunk).1 :=
  takeAll_drains (fun _ h => next_yields h []) _ _ (hf.receive chunk) (size_lt_itemBound _)

theorem finish_drains {f : Framing} (hf : f.Sound) :
    Drains nextAtEnd f f.finish.2 f.finish.1 :=
  takeAll_drains (fun _ h => (nextAtEnd_yields h).1) _ _ hf (size_lt_itemBound _)

-- By induction on the chunks: those that came are used up, or wait as the buffer says.
theorem Reads.expected {f : Framing} {chunks : List (List UInt8)} {items : List Item}
    (h : Reads f chunks items) (hf : f.Sound) : items = f.expected chunks.flatten := by
  induction h with
  | finish f g items hdrains =>
    obtain ⟨-, -, hexpected⟩ := hdrains.expected (fun _ h => (nextAtEnd_yields h).1) hf
    obtain ⟨last, hlast, hnone⟩ := hdrains.last (fun _ h => (nextAtEnd_yields h).1) hf
    have hdone := (nextAtEnd_yields hlast).2
    rw [hnone] at hdone
    rw [List.flatten_nil, hexpected, hdone rfl, List.append_nil]
  | read f g chunk items chunks more hdrains _ ih =>
    obtain ⟨hsound, -, hexpected⟩ :=
      hdrains.expected (fun _ h => next_yields h chunks.flatten) (hf.receive chunk)
    rw [expected_receive] at hexpected
    rw [List.flatten_cons, hexpected, ih hsound]

theorem foldl_reads (chunks : List (List UInt8)) (f : Framing) (hf : f.Sound)
    (before : List Item) : ∃ items, Reads f chunks items ∧
      (let (g, all) := chunks.foldl (fun (g, all) chunk =>
        let (g, more) := g.read chunk
        (g, all ++ more)) (f, before)
      all ++ g.finish.2) = before ++ items := by
  induction chunks generalizing f before with
  | nil => exact ⟨f.finish.2, .finish f _ _ (finish_drains hf), rfl⟩
  | cons chunk rest ih =>
    have hdrains := read_drains hf chunk
    obtain ⟨hsound, -, -⟩ := hdrains.expected (fun _ h => next_yields h []) (hf.receive chunk)
    obtain ⟨items, hreads, hall⟩ := ih (f.read chunk).1 hsound (before ++ (f.read chunk).2)
    refine ⟨(f.read chunk).2 ++ items, .read f _ chunk _ rest items hdrains hreads, ?_⟩
    rw [← List.append_assoc]
    exact hall

theorem readAll_reads (limit : Nat) (chunks : List (List UInt8)) :
    Reads (ofLimit limit) chunks (readAll limit chunks) := by
  obtain ⟨items, hreads, hall⟩ := foldl_reads chunks (ofLimit limit) (sound_ofLimit limit) []
  have heq : readAll limit chunks = items := hall
  rw [heq]
  exact hreads

theorem reads_iff (limit : Nat) (chunks : List (List UInt8)) (items : List Item) :
    Reads (ofLimit limit) chunks items ↔ items = itemsOf (max limit 1) chunks.flatten := by
  have hexpected : ∀ items, Reads (ofLimit limit) chunks items →
      items = itemsOf (max limit 1) chunks.flatten := by
    intro items hreads
    rw [hreads.expected (sound_ofLimit limit), expected_ofLimit]
  constructor
  · exact hexpected items
  · rintro rfl
    rw [← hexpected _ (readAll_reads limit chunks)]
    exact readAll_reads limit chunks

-- The piece behind the last line break is no line if it is empty, and nothing is read of it.
theorem readAll_linesOf (rules : Line.Rules) (source : Option String) (stream : List UInt8) :
    (linesOf stream).flatMap (Line.readAll rules source) = Line.readAll rules source stream := by
  have hne := Text.pieces_ne_nil lineBreak stream
  have hall := Line.readAll_intercalate rules source (Text.pieces lineBreak stream)
  rw [show [Line.lineBreak].intercalate (Text.pieces lineBreak stream) = stream from
    Text.intercalate_pieces lineBreak stream] at hall
  rw [hall]
  conv => rhs; rw [← List.dropLast_concat_getLast hne]
  rw [linesOf, List.getLast?_eq_some_getLast hne, List.flatMap_append, List.flatMap_append]
  congr 1
  by_cases hlast : (Text.pieces lineBreak stream).getLast hne = []
  · simp [hlast, Line.readAll_nil]
  · simp [hlast]

theorem itemsOf_short {limit : Nat} {stream : List UInt8}
    (h : ∀ line ∈ linesOf stream, line.length ≤ limit) :
    itemsOf limit stream = (linesOf stream).map .line :=
  List.map_congr_left fun line hline => if_pos (h line hline)

end Framing

theorem chunks_do_not_matter (limit : Nat) (hlimit : 0 < limit) (chunks : List (List UInt8))
    (rules : Line.Rules) (source : Option String) :
    (∀ items, Framing.Reads (.ofLimit limit) chunks items ↔
      items = (Framing.linesOf chunks.flatten).map (Framing.itemOf limit)) ∧
    Framing.readAll limit chunks = (Framing.linesOf chunks.flatten).map (Framing.itemOf limit) ∧
    ((∀ line ∈ Framing.linesOf chunks.flatten, line.length ≤ limit) →
      ∀ counts, ((Framing.readAll limit chunks).flatMap fun item =>
        (receiveItem item counts).2.toList.flatMap (Line.readAll rules source)) =
          Line.readAll rules source chunks.flatten) := by
  have hmax : max limit 1 = limit := Nat.max_eq_left hlimit
  have hreads := Framing.reads_iff limit chunks
  rw [hmax] at hreads
  have hall := (hreads _).mp (Framing.readAll_reads limit chunks)
  refine ⟨hreads, hall, fun hshort counts => ?_⟩
  rw [hall, Framing.itemsOf_short hshort, List.flatMap_map, ← Framing.readAll_linesOf]
  simp [receiveItem]

-- Two lines of just as many bytes as are allowed; the first chunk ends between a line and its break.
theorem full_lines_in_two_chunks :
    0 < 3 ∧
    (∀ items, Framing.Reads (.ofLimit 3) [[97, 58, 49], [10, 98, 58, 50]] items ↔
      items = [.line [97, 58, 49], .line [98, 58, 50]]) ∧
    (∀ line ∈ Framing.linesOf [97, 58, 49, 10, 98, 58, 50], line.length ≤ 3) ∧
    ∀ counts, ((Framing.readAll 3 [[97, 58, 49], [10, 98, 58, 50]]).flatMap fun item =>
      (receiveItem item counts).2.toList.flatMap (Line.readAll {} none)) =
        Line.readAll {} none [97, 58, 49, 10, 98, 58, 50] := by
  have hshort : ∀ line ∈ Framing.linesOf [97, 58, 49, 10, 98, 58, 50], line.length ≤ 3 := by decide
  obtain ⟨hreads, -, hread⟩ :=
    chunks_do_not_matter 3 (by decide) [[97, 58, 49], [10, 98, 58, 50]] {} none
  exact ⟨by decide, hreads, hshort, hread hshort⟩

-- A line over the limit, with chunks that end before its break is in sight.
example : Framing.readAll 3 [[97, 98], [99, 100, 101], [102, 10, 120]] =
    [.tooLong, .line [120]] := by
  decide

end StatsDaemon.Receiver
