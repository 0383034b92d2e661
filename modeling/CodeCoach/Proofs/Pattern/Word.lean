import CodeCoach.Proofs.Pattern.Place
import Mathlib.Data.List.Forall2

/-!
# Matches of words, classes and sequences

* `Pattern.ends_both_iff`, `Pattern.ends_inOrder_cons_iff`: one pattern after the other;
* `Pattern.ends_anyOf_iff`: one of several patterns;
* `Pattern.ends_word_iff`, `Pattern.Ends.of_wordAnyCase`: what the match of a word passes;
* `Pattern.ends_many_iff`, `Pattern.head?_ends_many`: what the match of a class passes, and that the
  preferred one goes on as far as it can.
-/

namespace CodeCoach

open Text

namespace Pattern

variable {a b : Pattern} {s e m : Place} {p : Char → Bool}

/-! ### Sequences -/

theorem ends_both_iff : Ends (both a b) s e ↔ ∃ m, Ends a s m ∧ Ends b m e := by
  constructor
  · intro h
    cases h with
    | both ha hb => exact ⟨_, ha, hb⟩
  · rintro ⟨m, ha, hb⟩
    exact .both ha hb

/-- The preferred match of a sequence goes through some match of its first part. -/
theorem head?_ends_both (h : ((both a b).ends s).head? = some e) :
    ∃ m, Ends a s m ∧ (b.ends m).head? = some e := by
  rw [ends, List.head?_flatMap] at h
  obtain ⟨m, hm, he⟩ := List.exists_of_findSome?_eq_some h
  exact ⟨m, (mem_ends_iff a s m).1 hm, he⟩

theorem ends_inOrder_cons_iff {rest : List Pattern} :
    Ends (inOrder (a :: rest)) s e ↔ ∃ m, Ends a s m ∧ Ends (inOrder rest) m e := by
  cases rest with
  | nil =>
    constructor
    · exact fun h => ⟨e, h, .done⟩
    · rintro ⟨m, ha, hdone⟩
      cases hdone
      exact ha
  | cons b rest => exact ends_both_iff

theorem ends_anyOf_iff {l : List Pattern} : Ends (anyOf l) s e ↔ ∃ a ∈ l, Ends a s e := by
  induction l with
  | nil =>
    constructor
    · intro h
      cases h with
      | one h => cases h
    · rintro ⟨a, ha, -⟩
      cases ha
  | cons a l ih =>
    cases l with
    | nil => simp [anyOf]
    | cons b l =>
      rw [List.exists_mem_cons_iff, ← ih]
      constructor
      · intro h
        cases h with
        | left h => exact .inl h
        | right h => exact .inr h
      · exact fun h => h.elim .left .right

/-! ### Words -/

theorem Ends.of_one (h : Ends (Pattern.one p) s e) : ∃ c, p c ∧ s.Passes [c] e := by
  cases h with
  | @one p c b n r h => exact ⟨c, h, rfl, rfl, rfl⟩

theorem ends_one_of_passes {c : Char} (hc : p c) (h : s.Passes [c] e) : Ends (one p) s e := by
  obtain ⟨b, n, r⟩ := s
  obtain ⟨b', n', r'⟩ := e
  obtain ⟨hrest, hoffset, hbefore⟩ := h
  simp only [List.singleton_append] at hrest
  subst hrest hoffset hbefore
  exact Ends.one hc

theorem ends_char_iff {c : Char} : Ends (char c) s e ↔ s.Passes [c] e := by
  constructor
  · intro h
    obtain ⟨d, hd, hpass⟩ := Ends.of_one h
    exact eq_of_beq hd ▸ hpass
  · exact ends_one_of_passes (beq_self_eq_true c)

/-- A sequence of single characters, one for each of the given ones. -/
theorem Ends.of_inOrder_one {l : List Char} {q : Char → Char → Bool}
    (h : Ends (inOrder (l.map fun c => Pattern.one (q c))) s e) :
    ∃ cs, s.Passes cs e ∧ List.Forall₂ (fun c d => q c d) l cs := by
  induction l generalizing s with
  | nil =>
    cases h
    exact ⟨[], .refl _, .nil⟩
  | cons c l ih =>
    obtain ⟨m, hc, hl⟩ := ends_inOrder_cons_iff.1 h
    obtain ⟨d, hd, hpass⟩ := hc.of_one
    obtain ⟨cs, hcs, hall⟩ := ih hl
    exact ⟨d :: cs, hpass.trans hcs, .cons hd hall⟩

theorem ends_inOrder_one {l cs : List Char} {q : Char → Char → Bool}
    (h : List.Forall₂ (fun c d => q c d) l cs) (hpass : s.Passes cs e) :
    Ends (inOrder (l.map fun c => one (q c))) s e := by
  induction h generalizing s with
  | nil =>
    rw [← (Place.Passes.refl s).eq hpass]
    exact .done
  | @cons c d l cs hd _ ih =>
    obtain ⟨b, n, r⟩ := s
    have hr : r = d :: (cs ++ e.rest) := hpass.rest
    subst hr
    exact ends_inOrder_cons_iff.2 ⟨_, .one hd, ih hpass.of_cons.2⟩

/-- The match of a word passes the word. -/
theorem ends_word_iff {w : String} : Ends (word w) s e ↔ s.Passes w.toList e := by
  constructor
  · intro h
    obtain ⟨cs, hcs, hall⟩ := Ends.of_inOrder_one (q := fun c d => d == c) h
    have hsame : List.Forall₂ (· = ·) w.toList cs := hall.imp fun c d hd => (eq_of_beq hd).symm
    rw [List.forall₂_eq_eq_eq] at hsame
    exact hsame ▸ hcs
  · intro h
    refine ends_inOrder_one (q := fun c d => d == c) ?_ h
    exact List.forall₂_same.2 fun c _ => by simp

/-- The match of a word without regard to case passes a character for each of its letters. -/
theorem Ends.of_wordAnyCase {w : String} (h : Ends (wordAnyCase w) s e) :
    ∃ cs, s.Passes cs e ∧ List.Forall₂ (fun l c => isLetter l c) w.toList cs :=
  Ends.of_inOrder_one h

/-! ### Classes -/

/-- The match of a class passes characters of it. -/
theorem ends_many_iff : Ends (many p) s e ↔ ∃ cs, (∀ c ∈ cs, p c) ∧ s.Passes cs e := by
  constructor
  · intro h
    generalize hmany : many p = a at h
    induction h with
    | manyStop => exact ⟨[], by simp, .refl _⟩
    | manyStep hc _ ih =>
      cases hmany
      obtain ⟨cs, hcs, hpass⟩ := ih rfl
      exact ⟨_ :: cs, List.forall_mem_cons.2 ⟨hc, hcs⟩, hpass.cons⟩
    | _ => cases hmany
  · rintro ⟨cs, hcs, hpass⟩
    induction cs generalizing s with
    | nil => exact (Place.Passes.refl s).eq hpass ▸ .manyStop
    | cons c cs ih =>
      obtain ⟨before, offset, rest⟩ := s
      have hrest : rest = c :: (cs ++ e.rest) := hpass.rest
      subst hrest
      obtain ⟨hc, hcs⟩ := List.forall_mem_cons.1 hcs
      exact .manyStep hc (ih hcs hpass.of_cons.2)

theorem head?_manyEnds (passed : List Place) (before : Option Char) (offset : Nat)
    (cs : List Char) : ∃ e, (manyEnds p passed before offset cs).head? = some e ∧
      (Place.mk before offset cs).Passes (cs.takeWhile p) e ∧ e.rest = cs.dropWhile p := by
  induction cs generalizing passed before offset with
  | nil => exact ⟨_, rfl, .refl _, rfl⟩
  | cons c rest ih =>
    rw [manyEnds]
    by_cases hc : p c
    · obtain ⟨e, he, hpass, hrest⟩ := ih (⟨before, offset, c :: rest⟩ :: passed) (some c)
        (offset + c.utf8Size)
      refine ⟨e, by simpa [hc] using he, ?_, by simpa [hc] using hrest⟩
      rw [List.takeWhile_cons_of_pos hc]
      exact hpass.cons
    · refine ⟨⟨before, offset, c :: rest⟩, by simp [hc], ?_, by simp [hc]⟩
      rw [List.takeWhile_cons_of_neg hc]
      exact .refl _

/-- The preferred match of a class goes on as far as it can. -/
theorem head?_ends_many (p : Char → Bool) (s : Place) :
    ∃ e, ((many p).ends s).head? = some e ∧ s.Passes (s.rest.takeWhile p) e ∧
      e.rest = s.rest.dropWhile p :=
  head?_manyEnds [] s.before s.offset s.rest

end Pattern

end CodeCoach
