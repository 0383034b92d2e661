import CodeCoach.Pattern.Ends
import CodeCoach.Review.Finding

/-!
# Places along a line

A match begins and ends at places of the line that was searched, and what lies between two of its
places is a part of the line.

* `Place.Passes`, the characters that lie between two places;
* `Pattern.Ends.passes`: a match passes some characters of the line;
* `Review.columnOf_of_passes`: the column of a place counts the characters before it.
-/

namespace CodeCoach

open Text

/-- From `s` one comes to `e` by passing the characters `cs`. -/
structure Place.Passes (s : Place) (cs : List Char) (e : Place) : Prop where
  rest : s.rest = cs ++ e.rest
  offset : e.offset = s.offset + byteLength cs
  before : e.before = cs.getLast?.or s.before

namespace Place

variable {s m e : Place} {a b cs : List Char} {c : Char}

theorem Passes.refl (s : Place) : s.Passes [] s := ⟨rfl, rfl, rfl⟩

theorem Passes.trans (h : s.Passes a m) (t : m.Passes b e) : s.Passes (a ++ b) e where
  rest := by rw [h.rest, t.rest, List.append_assoc]
  offset := by
    rw [t.offset, h.offset, byteLength_append]
    omega
  before := by
    rw [t.before, h.before, List.getLast?_append]
    cases b.getLast? <;> rfl

theorem passes_next (s : Place) (hs : s.rest = c :: cs) : s.Passes [c] (s.next c cs) :=
  ⟨hs, rfl, rfl⟩

theorem exists_passes {rest : List Char} (h : s.rest = cs ++ rest) :
    ∃ e, s.Passes cs e ∧ e.rest = rest :=
  ⟨⟨cs.getLast?.or s.before, s.offset + byteLength cs, rest⟩, ⟨h, rfl, rfl⟩, rfl⟩

theorem Passes.of_append (h : s.Passes (a ++ b) e) : ∃ m, s.Passes a m ∧ m.Passes b e := by
  obtain ⟨m, hm, hrest⟩ := exists_passes (h.rest.trans (List.append_assoc a b e.rest))
  refine ⟨m, hm, hrest, ?_, ?_⟩
  · rw [h.offset, hm.offset, byteLength_append, Nat.add_assoc]
  · rw [h.before, hm.before, List.getLast?_append]
    cases b.getLast? <;> rfl

/-- One character of a line is passed first. -/
theorem Passes.cons {before : Option Char} {offset : Nat}
    (h : Passes ⟨some c, offset + c.utf8Size, cs⟩ a e) :
    Passes ⟨before, offset, c :: cs⟩ (c :: a) e :=
  (passes_next ⟨before, offset, c :: cs⟩ rfl).trans h

theorem Passes.of_cons {before : Option Char} {offset : Nat} {d : Char}
    (h : Passes ⟨before, offset, c :: cs⟩ (d :: a) e) :
    c = d ∧ Passes ⟨some c, offset + c.utf8Size, cs⟩ a e := by
  obtain ⟨rfl, hrest⟩ := List.cons.inj h.rest
  refine ⟨rfl, hrest, ?_, ?_⟩
  · rw [h.offset, byteLength]
    show offset + (c.utf8Size + byteLength a) = offset + c.utf8Size + byteLength a
    omega
  · rw [h.before, List.getLast?_cons]
    cases a.getLast? <;> rfl

/-- A place of a line is told by the characters before it. -/
theorem Passes.eq (h : s.Passes a m) (t : s.Passes a e) : m = e := by
  obtain ⟨_, _, _⟩ := m
  obtain ⟨_, _, _⟩ := e
  obtain ⟨hrest, rfl, rfl⟩ := h
  obtain ⟨trest, rfl, rfl⟩ := t
  congr 1
  exact List.append_cancel_left (hrest.symm.trans trest)

theorem offset_of_passes_start {line : List Char} (h : (start line).Passes a s) :
    s.offset = byteLength a := by
  rw [h.offset, start, Nat.zero_add]

theorem byteLength_pos (c : Char) (cs : List Char) : 0 < byteLength (c :: cs) :=
  Nat.add_pos_left c.utf8Size_pos _

end Place

/-! ### Matches -/

namespace Pattern

variable {a : Pattern} {s e : Place} {cs : List Char}

/-- A match passes some characters. -/
theorem Ends.passes (h : Ends a s e) : ∃ cs, s.Passes cs e := by
  induction h with
  | done => exact ⟨[], .refl _⟩
  | one _ => exact ⟨[_], ⟨rfl, rfl, rfl⟩⟩
  | manyStop => exact ⟨[], .refl _⟩
  | manyStep _ _ ih =>
    obtain ⟨cs, h⟩ := ih
    exact ⟨_ :: cs, h.cons⟩
  | edge _ => exact ⟨[], .refl _⟩
  | atStart => exact ⟨[], .refl _⟩
  | atEnd => exact ⟨[], .refl _⟩
  | both _ _ iha ihb =>
    obtain ⟨cs, ha⟩ := iha
    obtain ⟨ds, hb⟩ := ihb
    exact ⟨cs ++ ds, ha.trans hb⟩
  | left _ ih => exact ih
  | right _ ih => exact ih
  | repeatedStop => exact ⟨[], .refl _⟩
  | repeatedStep _ _ _ iha iht =>
    obtain ⟨cs, ha⟩ := iha
    obtain ⟨ds, ht⟩ := iht
    exact ⟨cs ++ ds, ha.trans ht⟩

theorem matchAt_eq_some {m : Match} (h : a.matchAt s = some m) :
    m.start = s ∧ (a.ends s).head? = some m.stop := by
  obtain ⟨e, he, rfl⟩ := Option.map_eq_some_iff.1 h
  exact ⟨rfl, he⟩

theorem ends_of_matchAt {m : Match} (h : a.matchAt s = some m) : Ends a m.start m.stop := by
  obtain ⟨rfl, hstop⟩ := matchAt_eq_some h
  exact (mem_ends_iff a _ _).1 (List.mem_of_head? hstop)

theorem Match.text_of_passes {m : Match} (h : m.start.Passes cs m.stop) :
    m.text = cs ∧ m.stop.rest = m.start.rest.drop cs.length := by
  rw [Match.text, h.rest, List.length_append, Nat.add_sub_cancel, List.take_left, List.drop_left]
  exact ⟨rfl, rfl⟩

theorem isSome_matchAt_iff : (a.matchAt s).isSome ↔ ∃ e, Ends a s e := by
  rw [matchAt, Option.isSome_map, List.isSome_head?]
  constructor
  · intro h
    obtain ⟨e, rest, he⟩ := List.exists_cons_of_ne_nil (by simpa using h)
    exact ⟨e, (mem_ends_iff a s e).1 (by simp [he])⟩
  · rintro ⟨e, he⟩
    have := List.ne_nil_of_mem ((mem_ends_iff a s e).2 he)
    simpa using this

end Pattern

/-! ### Columns -/

namespace Review

theorem charsWithin_append (a b : List Char) :
    charsWithin (byteLength a) (a ++ b) = some a.length := by
  induction a with
  | nil => cases b <;> rfl
  | cons c a ih =>
    have hpos := c.utf8Size_pos
    obtain ⟨n, hn⟩ : ∃ n, byteLength (c :: a) = n + 1 :=
      ⟨byteLength (c :: a) - 1, by have := Place.byteLength_pos c a; omega⟩
    have hsum : c.utf8Size + byteLength a = n + 1 := hn
    rw [hn, List.cons_append, charsWithin, if_pos (by omega),
      show n + 1 - c.utf8Size = byteLength a by omega, ih]
    rfl

/-- The column of a place counts the characters before it. -/
theorem columnOf_of_passes {line before : List Char} {s : Place}
    (h : (Place.start line).Passes before s) : columnOf line s.offset = before.length + 1 := by
  have hline : line = before ++ s.rest := h.rest
  rw [columnOf, Place.offset_of_passes_start h, hline, charsWithin_append]

end Review

end CodeCoach
