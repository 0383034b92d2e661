import CodeCoach.Proofs.Pattern.Place

/-!
# What a search finds

* `Pattern.find_eq_some`, `Pattern.occursIn_iff`: a search for one match finds a place where the
  pattern matches, if there is any;
* `Pattern.mem_findAll`: each of the successive matches is the preferred one at its place.
-/

namespace CodeCoach.Pattern

open Text

variable {a : Pattern} {m : Match}

/-! ### One match -/

theorem findFrom_eq_some {before : Option Char} {offset : Nat} {cs : List Char}
    (h : a.findFrom before offset cs = some m) :
    ∃ passed, (Place.mk before offset cs).Passes passed m.start ∧ a.matchAt m.start = some m := by
  induction cs generalizing before offset with
  | nil =>
    have hstart := (matchAt_eq_some h).1
    exact ⟨[], hstart ▸ .refl _, hstart ▸ h⟩
  | cons c rest ih =>
    cases hhere : a.matchAt ⟨before, offset, c :: rest⟩ with
    | some n =>
      have hmn : n = m := by simpa [findFrom, hhere] using h
      subst hmn
      have hstart := (matchAt_eq_some hhere).1
      exact ⟨[], hstart ▸ .refl _, hstart ▸ hhere⟩
    | none =>
      obtain ⟨passed, hpassed, hmatch⟩ := ih (by simpa [findFrom, hhere] using h)
      exact ⟨c :: passed, hpassed.cons, hmatch⟩

theorem isSome_findFrom {before : Option Char} {offset : Nat} {cs passed : List Char}
    {s : Place} (h : (Place.mk before offset cs).Passes passed s) (hs : (a.matchAt s).isSome) :
    (a.findFrom before offset cs).isSome := by
  induction cs generalizing before offset passed with
  | nil =>
    have hnil : passed = [] := (List.append_eq_nil_iff.1 h.rest.symm).1
    subst hnil
    have hhere := (Place.Passes.refl _).eq h
    rw [findFrom, hhere]
    exact hs
  | cons c rest ih =>
    rw [findFrom]
    cases hhere : a.matchAt ⟨before, offset, c :: rest⟩ with
    | some n => rfl
    | none =>
      cases passed with
      | nil =>
        -- The pattern would match here.
        rw [← (Place.Passes.refl _).eq h, hhere] at hs
        cases hs
      | cons d passed =>
        exact ih h.of_cons.2

theorem find_eq_some {line : List Char} (h : a.find line = some m) :
    ∃ passed, (Place.start line).Passes passed m.start ∧ a.matchAt m.start = some m :=
  findFrom_eq_some h

/-- A pattern occurs in a line when it matches at some place of it. -/
theorem occursIn_iff {line : List Char} :
    a.occursIn line ↔ ∃ passed s e, (Place.start line).Passes passed s ∧ Ends a s e := by
  constructor
  · intro h
    obtain ⟨m, hm⟩ := Option.isSome_iff_exists.1 h
    obtain ⟨passed, hpassed, hmatch⟩ := find_eq_some hm
    exact ⟨passed, _, _, hpassed, ends_of_matchAt hmatch⟩
  · rintro ⟨passed, s, e, hpassed, he⟩
    exact isSome_findFrom hpassed (isSome_matchAt_iff.2 ⟨e, he⟩)

/-! ### All matches -/

theorem mem_findAllFrom {free : Nat} {before : Option Char} {offset : Nat} {cs : List Char}
    (h : m ∈ a.findAllFrom free before offset cs) :
    ∃ passed, (Place.mk before offset cs).Passes passed m.start ∧ a.matchAt m.start = some m := by
  induction cs generalizing free before offset with
  | nil => cases h
  | cons c rest ih =>
    have hlater {free : Nat} (h : m ∈ a.findAllFrom free (some c) (offset + c.utf8Size) rest) :
        ∃ passed, (Place.mk before offset (c :: rest)).Passes passed m.start ∧
          a.matchAt m.start = some m := by
      obtain ⟨passed, hpassed, hmatch⟩ := ih h
      exact ⟨c :: passed, hpassed.cons, hmatch⟩
    rw [findAllFrom] at h
    split at h
    · exact hlater h
    · split at h
      · exact hlater h
      · rename_i n hn
        split at h
        · rcases List.mem_cons.1 h with rfl | h
          · have hstart := (matchAt_eq_some hn).1
            exact ⟨[], hstart ▸ .refl _, hstart ▸ hn⟩
          · exact hlater h
        · exact hlater h

/-- Each of the successive matches is the preferred one at a place of the line. -/
theorem mem_findAll {line : List Char} (h : m ∈ a.findAll line) :
    ∃ passed, (Place.start line).Passes passed m.start ∧ a.matchAt m.start = some m :=
  mem_findAllFrom h

end CodeCoach.Pattern
