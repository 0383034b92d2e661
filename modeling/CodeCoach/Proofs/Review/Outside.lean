import CodeCoach.Proofs.Pattern.Place
import CodeCoach.Proofs.Review.Literal

/-!
# What a mask shows of a line

A mask keeps the characters outside of the literals of a line and puts blanks for the rest.  So what
can be seen in a mask without a blank stands in the line itself, after as many bytes, and outside of
its literals.  Other text may be put in its place: where literals begin and end does not change.

* `Outside.mask_append`, `Outside.literals_append`: a line is cut between its literals;
* `literal_induction`: every line consists of literals and of characters at which none begins;
* `exists_outside_of_mask`: a word that is seen in a mask;
* `Outside.exchange`: exchanging a text that no literal begins or ends with.
-/

namespace CodeCoach.Review

open Text

variable {before after rest line lit : List Char} {c : Char}

/-! ### Lines cut between literals -/

theorem isSome_closing_of_append {q : Char} {a b : List Char} (h : (closing q a).isSome) :
    (closing q (a ++ b)).isSome := by
  obtain ⟨k, hk⟩ := Option.isSome_iff_exists.1 h
  rw [← List.append_nil a] at hk
  have hle := (closing_le_length hk).2
  rw [List.append_nil] at hle
  rw [closing_append hk hle b]
  rfl

/-- Where no literal begins none begins when the line ends earlier. -/
theorem literalLength_eq_none_of_append {cs : List Char}
    (h : literalLength (c :: (cs ++ rest)) = none) : literalLength (c :: cs) = none := by
  rw [literalLength_cons] at h ⊢
  split
  · rename_i hc
    rw [if_pos hc, Option.map_eq_none_iff, ← Option.not_isSome_iff_eq_none] at h
    rw [Option.map_eq_none_iff, ← Option.not_isSome_iff_eq_none]
    exact mt isSome_closing_of_append h
  · rfl

theorem Outside.mask_append (h : Outside rest before) :
    mask (before ++ rest) = mask before ++ mask rest := by
  induction h with
  | nil => rfl
  | code h _ ih =>
    rw [List.cons_append, mask_code h, mask_code (literalLength_eq_none_of_append h), ih,
      List.cons_append]
  | @literal lit before h _ ih =>
    rw [List.append_assoc, mask_literal h, ih, mask_literal (literalLength_append h before),
      List.append_assoc]

/-- The characters before a text come before each of its literals. -/
theorem literalsFrom_passed (passed : List Char) (hidden : Nat) (cs : List Char) :
    literalsFrom passed hidden cs =
      (literalsFrom [] hidden cs).map fun l => (passed.reverse ++ l.1, l.2) := by
  induction cs generalizing passed hidden with
  | nil => rfl
  | cons c cs ih =>
    have hnext (hidden : Nat) : literalsFrom (c :: passed) hidden cs =
        (literalsFrom [c] hidden cs).map fun l => (passed.reverse ++ l.1, l.2) := by
      rw [ih (c :: passed), ih [c], List.map_map]
      simp [Function.comp_def]
    cases hidden with
    | succ hidden => exact hnext hidden
    | zero =>
      rw [literalsFrom, literalsFrom]
      split
      · rw [hnext, List.map_cons]
        simp
      · exact hnext 0

theorem literals_code (h : literalLength (c :: rest) = none) :
    literals (c :: rest) = (literals rest).map fun l => (c :: l.1, l.2) := by
  rw [literals, literalsFrom, h]
  exact literalsFrom_passed [c] 0 rest

theorem literals_literal (h : literalLength (lit ++ rest) = some lit.length) :
    literals (lit ++ rest) = ([], lit) :: (literals rest).map fun l => (lit ++ l.1, l.2) := by
  rw [literals, literalsFrom_literal h, literalsFrom_passed]
  simp [literals]

theorem Outside.literals_append (h : Outside rest before) : literals (before ++ rest) =
    literals before ++ (literals rest).map fun l => (before ++ l.1, l.2) := by
  induction h with
  | nil => simp [literals, literalsFrom]
  | code h _ ih =>
    rw [List.cons_append, literals_code h, literals_code (literalLength_eq_none_of_append h), ih,
      List.map_append, List.map_map]
    rfl
  | @literal lit before h _ ih =>
    rw [List.append_assoc, literals_literal h, literals_literal (literalLength_append h before), ih,
      List.map_append, List.map_map]
    simp [Function.comp_def]

/-- Every line consists of literals and of characters at which none begins: what each of the two adds
to the front of a line can be shown on its own. -/
@[elab_as_elim]
theorem literal_induction {motive : List Char → Prop} (nil : motive [])
    (code : ∀ c cs, literalLength (c :: cs) = none → motive cs → motive (c :: cs))
    (literal : ∀ lit cs, literalLength (lit ++ cs) = some lit.length → motive cs →
      motive (lit ++ cs))
    (line : List Char) : motive line := by
  induction hn : line.length using Nat.strongRecOn generalizing line with
  | _ n ih =>
  subst hn
  cases line with
  | nil => exact nil
  | cons c cs =>
    cases hc : literalLength (c :: cs) with
    | none => exact code c cs hc (ih cs.length (by simp) cs rfl)
    | some k =>
      obtain ⟨lit, rest, hcs, hlit, hshorter⟩ := exists_literal hc
      rw [hcs]
      exact literal lit rest hlit (ih rest.length hshorter rest rfl)

/-! ### Words seen in a mask -/

/-- A word without a blank is seen behind the blanks that hide a literal. -/
theorem exists_append_of_spaces {n : Nat} {u w v cs : List Char} (hw : w ≠ []) (hblank : ' ' ∉ w)
    (h : List.replicate n ' ' ++ cs = u ++ (w ++ v)) :
    ∃ z, u = List.replicate n ' ' ++ z ∧ cs = z ++ (w ++ v) := by
  rcases List.append_eq_append_iff.1 h with hbehind | ⟨z, hspaces, hz⟩
  · exact hbehind
  · cases z with
    | nil => exact ⟨[], by simpa using hspaces.symm, by simpa using hz.symm⟩
    | cons d z =>
      obtain ⟨c, w, rfl⟩ := List.exists_cons_of_ne_nil hw
      obtain ⟨rfl, -⟩ := List.cons.inj hz
      have hmem : c ∈ List.replicate n ' ' := by simp [hspaces]
      obtain rfl := List.eq_of_mem_replicate hmem
      exact absurd List.mem_cons_self hblank

/-- A word without a blank that is seen in the mask of a line stands in the line after as many bytes,
and behind a part that ends outside the literals. -/
theorem exists_outside_of_mask {u w v : List Char} (hw : w ≠ []) (hblank : ' ' ∉ w)
    (h : mask line = u ++ (w ++ v)) :
    ∃ before after, line = before ++ (w ++ after) ∧ byteLength before = byteLength u ∧
      Outside (w ++ after) before ∧ mask after = v := by
  induction line using literal_induction generalizing u w with
  | nil =>
    have hnil : [] = u ++ (w ++ v) := h
    simp [hw] at hnil
  | code c cs hc ih =>
    rw [mask_code hc] at h
    cases u with
    | cons d u =>
      obtain ⟨rfl, hcs⟩ := List.cons.inj h
      obtain ⟨before, after, rfl, hbytes, hout, hafter⟩ := ih hw hblank hcs
      exact ⟨c :: before, after, rfl, by rw [byteLength, byteLength, hbytes], .code hc hout, hafter⟩
    | nil =>
      obtain ⟨d, w, rfl⟩ := List.exists_cons_of_ne_nil hw
      obtain ⟨rfl, hcs⟩ := List.cons.inj h
      by_cases hw : w = []
      · subst hw
        exact ⟨[], cs, rfl, rfl, .nil, hcs⟩
      · obtain ⟨before, after, rfl, hbytes, -, hafter⟩ :=
          ih (u := []) hw (fun hmem => hblank (List.mem_cons_of_mem c hmem)) hcs
        obtain rfl : before = [] := by
          cases before with
          | nil => rfl
          | cons d before => exact absurd hbytes (Nat.ne_of_gt (Place.byteLength_pos d before))
        exact ⟨[], after, rfl, rfl, .nil, hafter⟩
  | literal lit cs hlit ih =>
    rw [mask_literal hlit] at h
    obtain ⟨z, rfl, hz⟩ := exists_append_of_spaces hw hblank h
    obtain ⟨before, after, rfl, hbytes, hout, hafter⟩ := ih hw hblank hz
    refine ⟨lit ++ before, after, (List.append_assoc ..).symm, ?_, .literal hlit hout, hafter⟩
    rw [byteLength_append, byteLength_append, byteLength_spaces, hbytes]

/-! ### Exchanging what stands outside -/

/-- Whether a quote closes nowhere is not changed by a text that may stand in any literal, even if
its first character is hidden. -/
theorem closing_inert_eq_none_iff {q : Char} (hq : isQuote q) {w : List Char} (hw : Inert w) :
    closing q (w ++ rest) = none ↔ closing q rest = none := by
  rw [closing_inert hw hq, Option.map_eq_none_iff]

theorem closing_hidden_inert_eq_none_iff {q : Char} (hq : isQuote q) {w : List Char} (hw : Inert w)
    (hne : w ≠ []) : closing q (backslash :: (w ++ rest)) = none ↔ closing q rest = none := by
  have hback : ¬(backslash == q) = true := by simpa using (ne_backslash_of_isQuote hq).symm
  by_cases hhides : (backslash == backslash && q != backtick) = true
  · obtain ⟨c, w, rfl⟩ := List.exists_cons_of_ne_nil hne
    have hc : ¬(c == '\n') = true := by simpa using (hw c List.mem_cons_self).2.2
    rw [List.cons_append, closing_hidden hback hhides, if_neg hc, Option.map_eq_none_iff]
    exact closing_inert_eq_none_iff hq fun d hd => hw d (List.mem_cons_of_mem c hd)
  · rw [closing_pass hback hhides, Option.map_eq_none_iff, closing_inert_eq_none_iff hq hw]

/-- Where literals begin and end does not change when a text outside of them is exchanged for another,
if neither could do anything to a literal. -/
theorem Outside.exchange {old new : List Char} (hold : Inert old) (holdne : old ≠ [])
    (hnew : Inert new) (hnewne : new ≠ []) (h : Outside (old ++ after) before) :
    Outside (new ++ after) before := by
  induction h with
  | nil => exact .nil
  | code hc _ ih =>
    refine .code ?_ ih
    rw [literalLength_cons] at hc ⊢
    split
    · rename_i hquote
      rw [if_pos hquote, Option.map_eq_none_iff] at hc
      rw [Option.map_eq_none_iff]
      refine closing_append_eq_none (fun h => ?_) (fun h => ?_) hc
      · exact (closing_inert_eq_none_iff hquote hnew).2 ((closing_inert_eq_none_iff hquote hold).1 h)
      · exact (closing_hidden_inert_eq_none_iff hquote hnew hnewne).2
          ((closing_hidden_inert_eq_none_iff hquote hold holdne).1 h)
    · rfl
  | literal hlit _ ih => exact .literal (literalLength_append hlit _) ih

/-- A text without quotes is shown as it is, and no literal begins in it. -/
theorem literals_append {a : List Char} (h : ∀ c ∈ a, isQuote c = false) (rest : List Char) :
    literals (a ++ rest) = (literals rest).map fun l => (a ++ l.1, l.2) := by
  induction a with
  | nil => simp
  | cons c a ih =>
    obtain ⟨hc, ha⟩ := List.forall_mem_cons.1 h
    have hnone : literalLength (c :: (a ++ rest)) = none := by simp [literalLength_cons, hc]
    rw [List.cons_append, literals_code hnone, ih ha, List.map_map]
    rfl

end CodeCoach.Review
