import CodeCoach.Proofs.Pattern.Search
import CodeCoach.Proofs.Pattern.Word

/-!
# The preferred match

Of the matches at a place a search takes the one that the pattern prefers, and it goes on behind it.

* `Pattern.Prefers`, the end of the preferred match, with a lemma for each kind of pattern;
* `Pattern.repeatedEnds_of_le`: more fuel than there are characters makes no difference;
* `Pattern.findAllFrom_skip`, `Pattern.findAllFrom_hit`: the successive matches from a place on, where
  there is none for a while, and where there is one.
-/

namespace CodeCoach.Pattern

open Text

/-- The preferred match of the pattern at `s` ends at `e`. -/
def Prefers (a : Pattern) (s e : Place) : Prop := (a.ends s).head? = some e

variable {a b : Pattern} {s m e : Place} {p : Char → Bool} {cs : List Char} {c : Char}

theorem Prefers.matchAt (h : Prefers a s e) : a.matchAt s = some ⟨s, e⟩ := by
  rw [Pattern.matchAt, h, Option.map_some]

/-- Where all matches end at one place, the preferred match ends there. -/
theorem prefers_of_unique (h : Ends a s e) (hunique : ∀ m, Ends a s m → m = e) : Prefers a s e := by
  obtain ⟨m, later, hends⟩ := List.exists_cons_of_ne_nil
    (List.ne_nil_of_mem ((mem_ends_iff a s e).2 h))
  have hm : Ends a s m := (mem_ends_iff a s m).1 (by simp [hends])
  rw [Prefers, hends, List.head?_cons, hunique m hm]

/-! ### Kinds of patterns -/

theorem prefers_edge (h : s.atEdge) : Prefers edge s s := by
  rw [Prefers, ends, if_pos h, List.head?_cons]

theorem prefers_one (hc : p c) (h : s.Passes [c] e) : Prefers (one p) s e := by
  have hrest : s.rest = c :: e.rest := h.rest
  have hnext := (Place.passes_next s hrest).eq h
  rw [Prefers, ends, hrest]
  simp [hc, hnext]

/-- A class prefers to pass as many characters as it can. -/
theorem prefers_many (hcs : ∀ c ∈ cs, p c) (hstop : ∀ c ∈ e.rest.head?, p c = false)
    (h : s.Passes cs e) : Prefers (many p) s e := by
  obtain ⟨last, hlast, hpass, -⟩ := head?_ends_many p s
  have hnone : e.rest.takeWhile p = [] := by
    cases hrest : e.rest with
    | nil => rfl
    | cons c rest =>
      have hc : p c = false := hstop c (by rw [hrest]; rfl)
      exact List.takeWhile_cons_of_neg (by simp [hc])
  rw [h.rest, List.takeWhile_append_of_pos hcs, hnone, List.append_nil] at hpass
  exact h.eq hpass ▸ hlast

theorem Prefers.both (ha : Prefers a s m) (hb : Prefers b m e) : Prefers (both a b) s e := by
  obtain ⟨later, hends⟩ := List.head?_eq_some_iff.1 ha
  have hb : (b.ends m).head? = some e := hb
  rw [Prefers, ends, List.head?_flatMap, hends, List.findSome?_cons, hb]

theorem Prefers.inOrder_cons {rest : List Pattern} (ha : Prefers a s m)
    (h : Prefers (inOrder rest) m e) : Prefers (inOrder (a :: rest)) s e := by
  cases rest with
  | nil =>
    obtain rfl : m = e := Option.some.inj h
    exact ha
  | cons b rest => exact ha.both h

/-! ### Repetitions -/

theorem repeatedEnds_succ {step : Place → List Place} {fuel : Nat} (h : s.rest.length ≤ fuel) :
    repeatedEnds step (fuel + 1) s = repeatedEnds step fuel s := by
  induction fuel generalizing s with
  | zero =>
    have hnone : (step s).filter (fun e => e.rest.length < s.rest.length) = [] :=
      List.filter_eq_nil_iff.2 fun e _ => by
        rw [decide_eq_true_eq]
        omega
    simp [repeatedEnds, hnone]
  | succ fuel ih =>
    rw [repeatedEnds, repeatedEnds]
    refine congrArg (· ++ [s]) (List.flatMap_congr fun e he => ih ?_)
    have hshorter := of_decide_eq_true (List.mem_filter.1 he).2
    omega

/-- More fuel than there are characters makes no difference. -/
theorem repeatedEnds_of_le {step : Place → List Place} {fuel : Nat} (h : s.rest.length ≤ fuel) :
    repeatedEnds step fuel s = repeatedEnds step s.rest.length s := by
  obtain ⟨extra, rfl⟩ := Nat.exists_eq_add_of_le h
  clear h
  induction extra with
  | zero => rfl
  | succ extra ih => rw [← Nat.add_assoc, repeatedEnds_succ (Nat.le_add_right _ _), ih]

theorem prefers_repeated_stop (h : ∀ e, ¬ Ends a s e) : Prefers (repeated a) s s := by
  have hnone : a.ends s = [] := List.eq_nil_iff_forall_not_mem.2 fun e he =>
    h e ((mem_ends_iff a s e).1 he)
  rw [Prefers, ends]
  cases s.rest.length with
  | zero => rfl
  | succ fuel =>
    rw [repeatedEnds, hnone]
    rfl

/-- A repetition prefers to go on. -/
theorem Prefers.repeated (ha : Prefers a s m) (hshorter : m.rest.length < s.rest.length)
    (h : Prefers (repeated a) m e) : Prefers (repeated a) s e := by
  obtain ⟨later, hends⟩ := List.head?_eq_some_iff.1 ha
  obtain ⟨fuel, hfuel⟩ := Nat.exists_eq_add_one_of_ne_zero (Nat.ne_of_gt (Nat.zero_lt_of_lt hshorter))
  have hfirst : (repeatedEnds a.ends fuel m).head? = some e := by
    rw [repeatedEnds_of_le (by omega)]
    exact h
  rw [Prefers, ends, hfuel, repeatedEnds, hends, List.filter_cons,
    if_pos (by simpa using hshorter), List.flatMap_cons, List.append_assoc, List.head?_append, hfirst]
  rfl

/-! ### Successive matches -/

variable {free : Nat}

/-- Where no match may begin a search goes on. -/
theorem findAllFrom_skip (h : s.Passes cs e)
    (hnone : ∀ u v t, cs = u ++ v → v ≠ [] → s.Passes u t →
      t.offset < free ∨ a.matchAt t = none) :
    a.findAllFrom free s.before s.offset s.rest = a.findAllFrom free e.before e.offset e.rest := by
  induction cs generalizing s with
  | nil => rw [(Place.Passes.refl s).eq h]
  | cons c cs ih =>
    obtain ⟨before, offset, rest⟩ := s
    obtain rfl : rest = c :: (cs ++ e.rest) := h.rest
    have hlater := ih h.of_cons.2 fun u v t hsplit hv ht =>
      hnone (c :: u) v t (by rw [hsplit, List.cons_append]) hv ht.cons
    rw [findAllFrom]
    rcases hnone [] (c :: cs) _ rfl (List.cons_ne_nil c cs) (.refl _) with hfree | hhere
    · rw [if_pos hfree]
      exact hlater
    · rw [hhere, ite_self]
      exact hlater

/-- Where the pattern matches some characters, a search takes the preferred match. -/
theorem findAllFrom_hit (h : s.Passes (c :: cs) e) (hfree : free ≤ s.offset) (ha : Prefers a s e) :
    a.findAllFrom free s.before s.offset s.rest =
      ⟨s, e⟩ :: a.findAllFrom e.offset e.before e.offset e.rest := by
  obtain ⟨before, offset, rest⟩ := s
  obtain rfl : rest = c :: (cs ++ e.rest) := h.rest
  have hstop : offset < e.offset := by
    rw [h.offset]
    exact Nat.lt_add_of_pos_right (Place.byteLength_pos c cs)
  rw [findAllFrom, if_neg (Nat.not_lt.2 hfree), ha.matchAt]
  simp only [if_pos hstop]
  refine congrArg _ (findAllFrom_skip (e := e) h.of_cons.2 fun u v t hsplit hv ht => .inl ?_)
  -- What is passed begins before the end of the match.
  obtain ⟨d, v, rfl⟩ := List.exists_cons_of_ne_nil hv
  have hpos := Place.byteLength_pos d v
  rw [ht.offset, h.of_cons.2.offset, hsplit, byteLength_append]
  omega

end CodeCoach.Pattern
