import CodeCoach.Pattern

/-!
# The ends of matches as a relation

* `Pattern.Ends`, where the matches of a pattern at a place can end, without an order;
* `mem_ends_iff`, the list of ends holds exactly these.
-/

namespace CodeCoach.Pattern

/-- `a.Ends s e` says that a match of `a` at `s` can end at `e`. -/
inductive Ends : Pattern → Place → Place → Prop
  | done {s} : Ends done s s
  | one {p c b n r} (h : p c = true) :
      Ends (one p) ⟨b, n, c :: r⟩ ⟨some c, n + c.utf8Size, r⟩
  | manyStop {p s} : Ends (many p) s s
  | manyStep {p c b n r e} (h : p c = true)
      (t : Ends (many p) ⟨some c, n + c.utf8Size, r⟩ e) : Ends (many p) ⟨b, n, c :: r⟩ e
  | edge {s} (h : s.atEdge = true) : Ends edge s s
  | atStart {b r} : Ends atStart ⟨b, 0, r⟩ ⟨b, 0, r⟩
  | atEnd {b n} : Ends atEnd ⟨b, n, []⟩ ⟨b, n, []⟩
  | both {a b s m e} (h : Ends a s m) (t : Ends b m e) : Ends (both a b) s e
  | left {a b s e} (h : Ends a s e) : Ends (either a b) s e
  | right {a b s e} (h : Ends b s e) : Ends (either a b) s e
  | repeatedStop {a s} : Ends (repeated a) s s
  | repeatedStep {a s m e} (h : Ends a s m) (l : m.rest.length < s.rest.length)
      (t : Ends (repeated a) m e) : Ends (repeated a) s e

theorem mem_manyEnds {p : Char → Bool} {e : Place} (passed : List Place) (before : Option Char)
    (offset : Nat) (cs : List Char) :
    e ∈ manyEnds p passed before offset cs ↔ Ends (many p) ⟨before, offset, cs⟩ e ∨ e ∈ passed := by
  induction cs generalizing passed before offset with
  | nil =>
    simp only [manyEnds, List.mem_cons]
    constructor
    · rintro (rfl | h)
      · exact .inl .manyStop
      · exact .inr h
    · rintro (h | h)
      · cases h
        exact .inl rfl
      · exact .inr h
  | cons c rest ih =>
    by_cases hp : p c = true
    · simp only [manyEnds, hp, if_true, ih, List.mem_cons]
      constructor
      · rintro (h | rfl | h)
        · exact .inl (.manyStep hp h)
        · exact .inl .manyStop
        · exact .inr h
      · rintro (h | h)
        · cases h with
          | manyStop => exact .inr (.inl rfl)
          | manyStep _ t => exact .inl t
        · exact .inr (.inr h)
    · simp only [manyEnds, hp, if_false, List.mem_cons, Bool.false_eq_true]
      constructor
      · rintro (rfl | h)
        · exact .inl .manyStop
        · exact .inr h
      · rintro (h | h)
        · cases h with
          | manyStop => exact .inl rfl
          | manyStep h' _ => exact absurd h' hp
        · exact .inr h

theorem mem_repeatedEnds {a : Pattern} (step : ∀ s e, e ∈ a.ends s ↔ Ends a s e) {e : Place}
    (fuel : Nat) (s : Place) (h : s.rest.length ≤ fuel) :
    e ∈ repeatedEnds a.ends fuel s ↔ Ends (repeated a) s e := by
  induction fuel generalizing s with
  | zero =>
    simp only [repeatedEnds, List.mem_singleton]
    constructor
    · rintro rfl
      exact .repeatedStop
    · intro t
      cases t with
      | repeatedStop => rfl
      | repeatedStep _ l _ => omega
  | succ fuel ih =>
    simp only [repeatedEnds, List.mem_append, List.mem_flatMap, List.mem_filter, step,
      decide_eq_true_eq, List.mem_singleton]
    constructor
    · rintro (⟨m, ⟨hm, hl⟩, he⟩ | rfl)
      · exact .repeatedStep hm hl ((ih m (by omega)).1 he)
      · exact .repeatedStop
    · intro t
      cases t with
      | repeatedStop => exact .inr rfl
      | repeatedStep hm hl ht => exact .inl ⟨_, ⟨hm, hl⟩, (ih _ (by omega)).2 ht⟩

/-- The list of ends holds exactly the ends of the matches. -/
theorem mem_ends_iff (a : Pattern) (s e : Place) : e ∈ a.ends s ↔ Ends a s e := by
  induction a generalizing s e with
  | done =>
    simp only [ends, List.mem_singleton]
    constructor
    · rintro rfl
      exact .done
    · intro h
      cases h
      rfl
  | one p =>
    obtain ⟨b, n, cs⟩ := s
    cases cs with
    | nil =>
      simp only [ends, List.not_mem_nil, false_iff]
      intro h
      cases h
    | cons c rest =>
      by_cases hp : p c = true
      · simp only [ends, hp, if_true, Place.next, List.mem_singleton]
        constructor
        · rintro rfl
          exact .one hp
        · intro h
          cases h
          rfl
      · simp only [ends, hp, List.not_mem_nil, false_iff, Bool.false_eq_true, if_false]
        intro h
        cases h with
        | one h' => exact hp h'
  | many p =>
    obtain ⟨b, n, cs⟩ := s
    simp only [ends, mem_manyEnds, List.not_mem_nil, or_false]
  | edge =>
    by_cases hs : s.atEdge = true
    · simp only [ends, hs, if_true, List.mem_singleton]
      constructor
      · rintro rfl
        exact .edge hs
      · intro h
        cases h
        rfl
    · simp only [ends, hs, List.not_mem_nil, false_iff, Bool.false_eq_true, if_false]
      intro h
      cases h with
      | edge h' => exact hs h'
  | atStart =>
    obtain ⟨b, n, cs⟩ := s
    by_cases hn : n = 0
    · subst hn
      simp only [ends, beq_self_eq_true, if_true, List.mem_singleton]
      constructor
      · rintro rfl
        exact .atStart
      · intro h
        cases h
        rfl
    · simp only [ends, beq_iff_eq, hn, if_false, List.not_mem_nil, false_iff]
      intro h
      cases h
      exact hn rfl
  | atEnd =>
    obtain ⟨b, n, cs⟩ := s
    cases cs with
    | nil =>
      simp only [ends, List.isEmpty_nil, if_true, List.mem_singleton]
      constructor
      · rintro rfl
        exact .atEnd
      · intro h
        cases h
        rfl
    | cons c rest =>
      simp only [ends, List.isEmpty_cons, List.not_mem_nil, false_iff, Bool.false_eq_true,
        if_false]
      intro h
      cases h
  | both a b iha ihb =>
    simp only [ends, List.mem_flatMap, iha, ihb]
    constructor
    · rintro ⟨m, hm, he⟩
      exact .both hm he
    · intro h
      cases h with
      | both hm he => exact ⟨_, hm, he⟩
  | either a b iha ihb =>
    simp only [ends, List.mem_append, iha, ihb]
    constructor
    · rintro (h | h)
      · exact .left h
      · exact .right h
    · intro h
      cases h with
      | left h => exact .inl h
      | right h => exact .inr h
  | repeated a ih =>
    simpa [ends] using mem_repeatedEnds ih s.rest.length s (Nat.le_refl _)

end CodeCoach.Pattern
