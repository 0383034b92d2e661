import CodeCoach.Proofs.Json.Scalar
import CodeCoach.Proofs.Sorted

/-!
# JSON text is read back

* `Json.Legible`, the values whose text says all about them: whole numbers of 64 bits, floats that
  are read back one by one, and nesting as deep as the reader goes;
* `Json.ReadBack`, what is proved of every value, whatever its text is put before;
* `Json.parse?_pretty`: a legible value comes back from its text with its fields in order.
-/

namespace CodeCoach.Json

/-- The float is read back from its text. -/
def ReadsBack (f : Float) : Prop :=
  ∀ rest, Ends rest → number (floatChars f ++ rest) = some (float f, rest)

/-- The value can be read from its text, and its nesting is at most `levels` deep. -/
inductive Legible : Nat → Json → Prop
  | null {levels : Nat} : Legible levels null
  | bool {levels : Nat} (b : Bool) : Legible levels (bool b)
  | int {levels : Nat} {n : Int} (least : -0x8000000000000000 ≤ n) (greatest : n ≤ maxWord) :
      Legible levels (int n)
  | float {levels : Nat} {f : Float} (h : ReadsBack f) : Legible levels (float f)
  | str {levels : Nat} (s : String) : Legible levels (str s)
  | arr {levels : Nat} {items : List Json} (h : ∀ v ∈ items, Legible levels v) :
      Legible (levels + 1) (arr items)
  | obj {levels : Nat} {fields : List (String × Json)} (h : ∀ f ∈ fields, Legible levels f.2) :
      Legible (levels + 1) (obj fields)

/-! ### Blanks -/

theorem skipSpace_newLine (level : Nat) (cs : List Char) :
    skipSpace (newLine level ++ cs) = skipSpace cs := by
  refine List.dropWhile_append_of_pos fun c hc => ?_
  rcases List.mem_cons.1 hc with rfl | hc
  · rfl
  · rw [List.eq_of_mem_replicate hc]
    rfl

theorem skipSpace_cons {c : Char} (h : ¬ isSpace c) (cs : List Char) :
    skipSpace (c :: cs) = c :: cs := List.dropWhile_cons_of_neg h

/-- The text begins with a value, which is neither a blank nor the end of an array. -/
def Begins (cs : List Char) : Prop := ∃ c tail, cs = c :: tail ∧ ¬ isSpace c ∧ c ≠ ']'

theorem ends_newLine (level : Nat) (cs : List Char) : Ends (newLine level ++ cs) :=
  ends_cons.2 (by decide)

/-! ### Lengths -/

mutual

theorem length_le_prettyChars (level : Nat) (after : List Char) :
    (v : Json) → after.length ≤ (prettyChars level after v).length
  | null => by simp [prettyChars]
  | bool b => by simp [prettyChars]
  | int n => by simp [prettyChars]
  | float f => by simp [prettyChars]
  | str s => by simp [prettyChars]
  | arr [] => by
    simp only [prettyChars, List.length_cons]
    omega
  | arr (v :: rest) => by
    have hitems := length_lt_prettyItems level after rest
    have hvalue := length_le_prettyChars (level + 1) (prettyItems level after rest) v
    simp only [prettyChars, List.length_cons, List.length_append]
    omega
  | obj [] => by
    simp only [prettyChars, List.length_cons]
    omega
  | obj ((n, v) :: rest) => by
    have hfields := length_lt_prettyFields level after rest
    have hvalue := length_le_prettyChars (level + 1) (prettyFields level after rest) v
    simp only [prettyChars, List.length_cons, List.length_append]
    omega

theorem length_lt_prettyItems (level : Nat) (after : List Char) :
    (items : List Json) → after.length < (prettyItems level after items).length
  | [] => by
    simp only [prettyItems, List.length_cons, List.length_append]
    omega
  | v :: rest => by
    have hitems := length_lt_prettyItems level after rest
    have hvalue := length_le_prettyChars (level + 1) (prettyItems level after rest) v
    simp only [prettyItems, List.length_cons, List.length_append]
    omega

theorem length_lt_prettyFields (level : Nat) (after : List Char) :
    (fields : List (String × Json)) → after.length < (prettyFields level after fields).length
  | [] => by
    simp only [prettyFields, List.length_cons, List.length_append]
    omega
  | (n, v) :: rest => by
    have hfields := length_lt_prettyFields level after rest
    have hvalue := length_le_prettyChars (level + 1) (prettyFields level after rest) v
    simp only [prettyFields, List.length_cons, List.length_append]
    omega

end

/-! ### Values -/

/-- Where the text of the value is put before another, the value and that other text are read; the
number of steps allowed need not exceed the length of the text. -/
structure ReadBack (depth : Nat) (v : Json) : Prop where
  begins : ∀ level after, Begins (prettyChars level after v)
  value : ∀ level after fuel, Ends after →
    (prettyChars level after v).length < fuel + after.length →
      value depth fuel (prettyChars level after v) = some (v, after)

/-- Where a number is read, the text begins with a digit or a minus. -/
theorem head_of_number {cs : List Char} {r : Json × List Char} (h : number cs = some r) :
    ∃ c tail, cs = c :: tail ∧ (c = '-' ∨ c.isDigit) := by
  cases cs with
  | nil => cases h
  | cons c tail =>
    refine ⟨c, tail, rfl, ?_⟩
    by_contra hc
    rw [not_or] at hc
    have hnone : number (c :: tail) = none := by
      unfold number
      split
      · simp_all
      · simp [unsignedNumber, takeDigits, hc.2]
    rw [hnone] at h
    cases h

/-- The characters that values other than numbers begin with. -/
theorem digit_or_minus_ne {c : Char} (h : c = '-' ∨ c.isDigit) :
    ¬ isSpace c ∧ c ∉ ['n', 't', 'f', '\x22', '[', ']', '\x7b'] := by
  rcases h with rfl | h
  · decide
  · constructor
    · intro hspace
      simp only [isSpace, Bool.or_eq_true, beq_iff_eq] at hspace
      rcases hspace with ((rfl | rfl) | rfl) | rfl <;> exact absurd h (by decide)
    · intro hmem
      simp only [List.mem_cons, List.not_mem_nil, or_false] at hmem
      rcases hmem with rfl | rfl | rfl | rfl | rfl | rfl | rfl <;> exact absurd h (by decide)

theorem value_of_number {cs : List Char} {r : Json × List Char} (h : number cs = some r)
    (depth fuel : Nat) : value depth (fuel + 1) cs = some r := by
  obtain ⟨c, tail, rfl, hc⟩ := head_of_number h
  obtain ⟨hspace, hne⟩ := digit_or_minus_ne hc
  simp only [List.mem_cons, List.not_mem_nil, or_false, not_or] at hne
  have hhead : (c == '-' || c.isDigit) = true := by simpa using hc
  rw [value, skipSpace_cons hspace]
  simp [hne, hhead, h]

theorem begins_of_number {cs : List Char} {r : Json × List Char} (h : number cs = some r) :
    Begins cs := by
  obtain ⟨c, tail, rfl, hc⟩ := head_of_number h
  obtain ⟨hspace, hne⟩ := digit_or_minus_ne hc
  exact ⟨c, tail, rfl, hspace, by simp_all⟩

/-- A value without parts takes one step to read. -/
theorem ReadBack.of_step {depth : Nat} {v : Json}
    (hbegins : ∀ level after, Begins (prettyChars level after v))
    (hvalue : ∀ level after fuel, Ends after →
      Json.value depth (fuel + 1) (prettyChars level after v) = some (v, after)) :
    ReadBack depth v := by
  refine ⟨hbegins, fun level after fuel hafter hfuel => ?_⟩
  have hlength := length_le_prettyChars level after v
  obtain ⟨fuel, rfl⟩ : ∃ k, fuel = k + 1 := ⟨fuel - 1, by omega⟩
  exact hvalue level after fuel hafter

/-- A value without parts that is read as a number. -/
theorem ReadBack.of_number {depth : Nat} {v : Json}
    (hpretty : ∀ level after, prettyChars level after v = leafChars v ++ after)
    (h : ∀ rest, Ends rest → number (leafChars v ++ rest) = some (v, rest)) : ReadBack depth v := by
  refine .of_step (fun level after => ?_) (fun level after fuel hafter => ?_)
  · -- Before any other text, the number begins as it does alone.
    obtain ⟨c, tail, hcons, hc⟩ := begins_of_number (h [] ends_nil)
    rw [hpretty, ← List.append_nil (leafChars v), hcons]
    exact ⟨c, tail ++ after, by simp, hc⟩
  · rw [hpretty]
    exact value_of_number (h after hafter) depth fuel

theorem afterWord_append (word : String) (cs : List Char) :
    afterWord word (word.toList ++ cs) = some cs := by
  have hlength : (word.toList ++ cs).drop word.length = cs := by
    rw [← String.length_toList, List.drop_left]
  rw [afterWord, if_pos (by simp), hlength]

theorem readBack_null (depth : Nat) : ReadBack depth null := by
  refine .of_step (fun level after => ⟨'n', _, rfl, by decide⟩) (fun level after fuel _ => ?_)
  show value depth (fuel + 1) ('n' :: ("ull".toList ++ after)) = _
  rw [value, skipSpace_cons (by decide)]
  simp only [afterWord_append, Option.map_some]

theorem readBack_bool (depth : Nat) (b : Bool) : ReadBack depth (bool b) := by
  cases b with
  | true =>
    refine .of_step (fun level after => ⟨'t', _, rfl, by decide⟩) (fun level after fuel _ => ?_)
    show value depth (fuel + 1) ('t' :: ("rue".toList ++ after)) = _
    rw [value, skipSpace_cons (by decide)]
    simp only [afterWord_append, Option.map_some]
  | false =>
    refine .of_step (fun level after => ⟨'f', _, rfl, by decide⟩) (fun level after fuel _ => ?_)
    show value depth (fuel + 1) ('f' :: ("alse".toList ++ after)) = _
    rw [value, skipSpace_cons (by decide)]
    simp only [afterWord_append, Option.map_some]

theorem readBack_str (depth : Nat) (s : String) : ReadBack depth (str s) := by
  refine .of_step (fun level after => ⟨'\x22', _, rfl, by decide⟩) (fun level after fuel _ => ?_)
  have hquote : prettyChars level after (str s) =
      '\x22' :: (s.toList.flatMap quoteChar ++ '\x22' :: after) := by
    simp [prettyChars, leafChars, quote]
  rw [hquote, value, skipSpace_cons (by decide)]
  simp only [stringBody_quote, Option.map_some]

theorem readBack_int {depth : Nat} {n : Int} (least : -0x8000000000000000 ≤ n)
    (greatest : n ≤ maxWord) : ReadBack depth (int n) := by
  refine ReadBack.of_number (fun level after => rfl) fun rest hrest => ?_
  show number ((if n < 0 then ['-'] else []) ++ Decimal.natChars n.natAbs ++ rest) = _
  by_cases hneg : n < 0
  · rw [if_pos hneg, List.singleton_append, number_neg (by omega) (by omega) hrest]
    congr 3
    omega
  · rw [if_neg hneg, List.nil_append, number_nat (by omega) hrest]
    congr 3
    omega

/-! ### Arrays and objects -/

theorem ends_prettyItems (level : Nat) (after : List Char) (items : List Json) :
    Ends (prettyItems level after items) := by
  cases items with
  | nil => exact ends_newLine level _
  | cons v rest => exact ends_cons.2 (by decide)

theorem ends_prettyFields (level : Nat) (after : List Char) (fields : List (String × Json)) :
    Ends (prettyFields level after fields) := by
  cases fields with
  | nil => exact ends_newLine level _
  | cons f rest => exact ends_cons.2 (by decide)

/-- Blanks before a value do not matter. -/
theorem value_eq_of_skipSpace {cs cs' : List Char} (h : skipSpace cs = skipSpace cs')
    (depth fuel : Nat) : value depth fuel cs = value depth fuel cs' := by
  cases fuel with
  | zero => rfl
  | succ fuel => rw [value, value, h]

theorem items_newLine (depth : Nat) (read : List Json) (fuel level : Nat) (cs : List Char) :
    items depth read fuel (newLine level ++ cs) = items depth read fuel cs := by
  cases fuel with
  | zero => rfl
  | succ fuel => rw [items, items, value_eq_of_skipSpace (skipSpace_newLine level cs)]

theorem fields_newLine (depth : Nat) (read : List (String × Json)) (fuel level : Nat)
    (cs : List Char) : fields depth read fuel (newLine level ++ cs) = fields depth read fuel cs := by
  cases fuel with
  | zero => rfl
  | succ fuel => rw [fields, fields, skipSpace_newLine]

/-- The items of an array from one on, and the end of the array. -/
theorem items_pretty {depth : Nat} {rest : List Json} {v : Json}
    (h : ∀ w ∈ v :: rest, ReadBack depth w) (read : List Json) (level : Nat) (after : List Char)
    (fuel : Nat)
    (hfuel : (prettyChars (level + 1) (prettyItems level after rest) v).length <
      fuel + after.length) :
    items depth read fuel (prettyChars (level + 1) (prettyItems level after rest) v) =
      some (arr (read.reverse ++ v :: rest), after) := by
  induction rest generalizing v read fuel with
  | nil =>
    -- The last item is followed by the end of the array.
    have hlength := length_le_prettyChars (level + 1) (prettyItems level after []) v
    have hmore := length_lt_prettyItems level after []
    obtain ⟨fuel, rfl⟩ : ∃ k, fuel = k + 1 := ⟨fuel - 1, by omega⟩
    have hvalue := (h v (by simp)).value (level + 1) (prettyItems level after []) fuel
      (ends_prettyItems level after []) (by omega)
    rw [items, hvalue]
    simp only [prettyItems, skipSpace_newLine, skipSpace_cons (show ¬ isSpace ']' by decide),
      List.reverse_cons]
  | cons w rest ih =>
    -- The next item comes after a comma and a new line, and one step less is left for it.
    have hlength := length_le_prettyChars (level + 1) (prettyItems level after (w :: rest)) v
    have hmore := length_lt_prettyItems level after (w :: rest)
    obtain ⟨fuel, rfl⟩ : ∃ k, fuel = k + 1 := ⟨fuel - 1, by omega⟩
    have hvalue := (h v (by simp)).value (level + 1) (prettyItems level after (w :: rest)) fuel
      (ends_prettyItems level after (w :: rest)) (by omega)
    have hshorter : (prettyChars (level + 1) (prettyItems level after rest) w).length + 2 ≤
        (prettyItems level after (w :: rest)).length := by
      simp only [prettyItems, newLine, List.length_cons, List.length_append]
      omega
    have hrest := ih (fun u hu => h u (List.mem_cons_of_mem _ hu)) (v :: read) fuel (by omega)
    rw [items, hvalue]
    simp only [prettyItems, skipSpace_cons (show ¬ isSpace ',' by decide), items_newLine]
    rw [hrest]
    simp

/-- The text of an object from a field on. -/
def fieldChars (level : Nat) (after : List Char) (f : String × Json) (rest : List (String × Json)) :
    List Char :=
  quote f.1 ++ ':' :: ' ' :: prettyChars (level + 1) (prettyFields level after rest) f.2

theorem length_lt_fieldChars (level : Nat) (after : List Char) (f : String × Json)
    (rest : List (String × Json)) :
    (prettyFields level after rest).length < (fieldChars level after f rest).length := by
  have hlength := length_le_prettyChars (level + 1) (prettyFields level after rest) f.2
  simp only [fieldChars, quote, List.length_append, List.length_cons]
  omega

/-- How an object goes on after a field, where `read` holds the fields so far. -/
def afterField (depth fuel : Nat) (read : List (String × Json)) :
    List Char → Option (Json × List Char)
  | '\x7d' :: rest => some (obj read, rest)
  | ',' :: rest => fields depth read fuel rest
  | _ => none

/-- A field is read with its name, up to what follows its value. -/
theorem fields_fieldChars {depth : Nat} {f : String × Json} (h : ReadBack depth f.2)
    (read : List (String × Json)) (level : Nat) (after : List Char) (rest : List (String × Json))
    (fuel : Nat) (hfuel : (fieldChars level after f rest).length < fuel + 1 + after.length) :
    fields depth read (fuel + 1) (fieldChars level after f rest) =
      afterField depth fuel (Sorted.put Prod.fst f read)
        (skipSpace (prettyFields level after rest)) := by
  obtain ⟨name, v⟩ := f
  replace h : ReadBack depth v := h
  have hmore := length_lt_prettyFields level after rest
  have hquote : fieldChars level after (name, v) rest =
      '\x22' :: (name.toList.flatMap quoteChar ++ '\x22' :: (':' :: ' ' ::
        prettyChars (level + 1) (prettyFields level after rest) v)) := by
    simp [fieldChars, quote]
  have hvalue : value depth fuel (' ' ::
      prettyChars (level + 1) (prettyFields level after rest) v) =
        some (v, prettyFields level after rest) := by
    have hblank : skipSpace (' ' :: prettyChars (level + 1) (prettyFields level after rest) v) =
        skipSpace (prettyChars (level + 1) (prettyFields level after rest) v) := rfl
    rw [value_eq_of_skipSpace hblank]
    refine h.value (level + 1) _ fuel (ends_prettyFields level after rest) ?_
    rw [hquote] at hfuel
    simp only [List.length_cons, List.length_append] at hfuel
    omega
  rw [hquote, fields, skipSpace_cons (by decide)]
  simp only [stringBody_quote, skipSpace_cons (show ¬ isSpace ':' by decide), hvalue]
  rfl

/-- The fields of an object from one on, and the end of the object, where the names are in order
with those that were read before. -/
theorem fields_pretty {depth : Nat} {rest : List (String × Json)} {f : String × Json}
    (h : ∀ g ∈ f :: rest, ReadBack depth g.2) (read : List (String × Json)) (level : Nat)
    (after : List Char) (fuel : Nat) (hnames : Sorted.Increasing Prod.fst (read ++ f :: rest))
    (hfuel : (fieldChars level after f rest).length < fuel + after.length) :
    fields depth read fuel (fieldChars level after f rest) =
      some (obj (read ++ f :: rest), after) := by
  have hlength := length_lt_fieldChars level after f rest
  have hmore := length_lt_prettyFields level after rest
  -- The name comes after all names so far, so the field is put at the end.
  have hput : Sorted.put Prod.fst f read = read ++ [f] :=
    Sorted.put_of_all_lt Prod.fst fun g hg =>
      (List.pairwise_append.1 hnames).2.2 g hg f (by simp)
  induction rest generalizing f read fuel with
  | nil =>
    obtain ⟨fuel, rfl⟩ : ∃ k, fuel = k + 1 := ⟨fuel - 1, by omega⟩
    rw [fields_fieldChars (h f (by simp)) read level after [] fuel hfuel, hput]
    simp only [prettyFields, skipSpace_newLine, skipSpace_cons (show ¬ isSpace '\x7d' by decide),
      afterField]
  | cons g rest ih =>
    obtain ⟨fuel, rfl⟩ : ∃ k, fuel = k + 1 := ⟨fuel - 1, by omega⟩
    rw [fields_fieldChars (h f (by simp)) read level after (g :: rest) fuel hfuel, hput]
    have hnext : prettyFields level after (g :: rest) =
        ',' :: (newLine (level + 1) ++ fieldChars level after g rest) := rfl
    rw [hnext]
    simp only [skipSpace_cons (show ¬ isSpace ',' by decide), afterField, fields_newLine]
    rw [hnext] at hlength
    simp only [newLine, List.length_cons, List.length_append] at hlength
    have hnames' : Sorted.Increasing Prod.fst ((read ++ [f]) ++ g :: rest) := by simpa using hnames
    rw [ih (fun e he => h e (List.mem_cons_of_mem _ he)) (read ++ [f]) fuel hnames' (by omega)
      (length_lt_fieldChars level after g rest) (length_lt_prettyFields level after rest)
      (Sorted.put_of_all_lt Prod.fst fun e he =>
        (List.pairwise_append.1 hnames').2.2 e he g (by simp))]
    simp

theorem readBack_arr {depth : Nat} {vs : List Json} (h : ∀ v ∈ vs, ReadBack (depth + 1) v) :
    ReadBack (depth + 2) (arr vs) := by
  refine ⟨fun level after => ?_, fun level after fuel hafter hfuel => ?_⟩
  · cases vs with
    | nil => exact ⟨'[', _, rfl, by decide⟩
    | cons v rest => exact ⟨'[', _, rfl, by decide⟩
  have hlength := length_le_prettyChars level after (arr vs)
  obtain ⟨fuel, rfl⟩ : ∃ k, fuel = k + 1 := ⟨fuel - 1, by omega⟩
  cases vs with
  | nil =>
    rw [prettyChars, value, skipSpace_cons (by decide)]
    simp [skipSpace, isSpace]
  | cons v rest =>
    -- The reader looks for the end of the array first, with which no item begins.
    obtain ⟨c, tail, hcons, hspace, hclose⟩ :=
      (h v (by simp)).begins (level + 1) (prettyItems level after rest)
    have hitems := items_pretty h [] level after fuel (by
      simp only [prettyChars, newLine, List.length_cons, List.length_append] at hfuel
      omega)
    rw [prettyChars, value, skipSpace_cons (by decide)]
    rw [hcons] at hitems ⊢
    simp only [skipSpace_newLine, skipSpace_cons hspace]
    simpa [hclose] using hitems

theorem readBack_obj {depth : Nat} {fs : List (String × Json)}
    (h : ∀ f ∈ fs, ReadBack (depth + 1) f.2) (hnames : Sorted.Increasing Prod.fst fs) :
    ReadBack (depth + 2) (obj fs) := by
  refine ⟨fun level after => ?_, fun level after fuel hafter hfuel => ?_⟩
  · rcases fs with _ | ⟨⟨n, v⟩, rest⟩
    · exact ⟨'\x7b', _, rfl, by decide⟩
    · exact ⟨'\x7b', _, rfl, by decide⟩
  have hlength := length_le_prettyChars level after (obj fs)
  obtain ⟨fuel, rfl⟩ : ∃ k, fuel = k + 1 := ⟨fuel - 1, by omega⟩
  rcases fs with _ | ⟨⟨n, v⟩, rest⟩
  · rw [prettyChars, value, skipSpace_cons (by decide)]
    simp [skipSpace, isSpace]
  · have hchars : prettyChars level after (obj ((n, v) :: rest)) =
        '\x7b' :: (newLine (level + 1) ++ fieldChars level after (n, v) rest) := rfl
    rw [hchars] at hfuel ⊢
    have hfields := fields_pretty h [] level after fuel hnames (by
      simp only [newLine, List.length_cons, List.length_append] at hfuel
      omega)
    have hquote : fieldChars level after (n, v) rest =
        '\x22' :: (fieldChars level after (n, v) rest).tail := rfl
    rw [value, skipSpace_cons (by decide)]
    rw [hquote] at hfields ⊢
    simp only [skipSpace_newLine, skipSpace_cons (show ¬ isSpace '\x22' by decide)]
    simpa using hfields

/-! ### Texts -/

theorem sortedItems_eq_map (vs : List Json) : sortedItems vs = vs.map sorted := by
  induction vs with
  | nil => rfl
  | cons v vs ih => rw [sortedItems, ih, List.map_cons]

theorem sortedFields_eq_map (fs : List (String × Json)) :
    sortedFields fs = fs.map fun f => (f.1, f.2.sorted) := by
  induction fs with
  | nil => rfl
  | cons f fs ih => rw [sortedFields, ih, List.map_cons]

theorem Legible.readBack {levels : Nat} {v : Json} (h : Legible levels v) :
    ReadBack (levels + 1) v.sorted := by
  -- The parts of a value are legible one level below, and so is the depth at which they are read.
  induction h with
  | null => exact readBack_null _
  | bool b => exact readBack_bool _ b
  | int least greatest => exact readBack_int least greatest
  | float h => exact ReadBack.of_number (fun _ _ => rfl) h
  | str s => exact readBack_str _ s
  | arr _ ih =>
    rw [sorted, sortedItems_eq_map]
    refine readBack_arr fun w hw => ?_
    obtain ⟨v, hv, rfl⟩ := List.mem_map.1 hw
    exact ih v hv
  | obj _ ih =>
    rw [sorted, sortedFields_eq_map]
    refine readBack_obj (fun f hf => ?_) (Sorted.increasing_ofList _ _)
    obtain ⟨g, hg, rfl⟩ := List.mem_map.1 (Sorted.mem_of_mem_ofList _ hf)
    exact ih g hg

/-- A legible value comes back from its text with the fields of its objects in order. -/
theorem parse?_pretty {v : Json} (h : Legible 127 v) : parse? v.sorted.pretty = some v.sorted := by
  have hvalue : value depthLimit ((prettyChars 0 [] v.sorted).length + 1)
      (prettyChars 0 [] v.sorted) = some (v.sorted, []) :=
    h.readBack.value 0 [] ((prettyChars 0 [] v.sorted).length + 1) ends_nil (by simp)
  unfold parse? pretty
  simp only [String.toList_ofList, hvalue]
  rfl

end CodeCoach.Json
