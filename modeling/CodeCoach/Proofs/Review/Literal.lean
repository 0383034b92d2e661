import CodeCoach.Review.Literal
import Mathlib.Data.Bool.AllAny
import Mathlib.Data.List.Basic

/-!
# A mask does not depend on what it hides

The text between the quotes of a complete literal may be exchanged for another that neither closes a
literal nor hides a character.  Then every other literal of the line begins and ends where it did,
and the mask of the line stays the same.

* `closing_append`, `isSome_closing_append`, `closing_inert`: how the search for a closing quote goes
  through a text;
* `isSome_closing_exchange`: a quote that opened nothing opens nothing after the exchange;
* `Outside`, a part of a line that ends outside its literals, and `outside_of_mem_literals`;
* `mask_exchange`, the mask after the exchange.
-/

namespace CodeCoach.Review

open Text

/-- A text that may stand in any literal: no character of it closes one, hides the next character
or ends the line. -/
def Inert (cs : List Char) : Prop := ∀ c ∈ cs, isQuote c = false ∧ c ≠ backslash ∧ c ≠ '\n'

instance (cs : List Char) : Decidable (Inert cs) := decidable_of_iff _ List.all_iff_forall_prop

/-- A text between two quotes. -/
def quoted (q : Char) (body : List Char) : List Char := q :: (body ++ [q])

theorem quoted_append (q : Char) (body rest : List Char) :
    quoted q body ++ rest = q :: (body ++ q :: rest) := by
  simp [quoted]

@[simp] theorem length_quoted (q : Char) (body : List Char) :
    (quoted q body).length = body.length + 2 := by
  simp [quoted]

@[simp] theorem getLast?_quoted (q : Char) (body : List Char) :
    (quoted q body).getLast? = some q :=
  List.getLast?_concat (a := q) (l := q :: body)

theorem byteLength_quoted (q : Char) (body : List Char) :
    byteLength (quoted q body) = q.utf8Size + (byteLength body + q.utf8Size) := by
  simp [quoted, byteLength, byteLength_append]

/-- The quotes that the rules for queries look for. -/
def isMark (c : Char) : Bool := c == doubleQuote || c == singleQuote

theorem isMark_eq_false {c : Char} (hdouble : c ≠ doubleQuote) (hsingle : c ≠ singleQuote) :
    isMark c = false := by
  simp [isMark, hdouble, hsingle]

theorem isQuote_of_isMark {c : Char} (h : isMark c) : isQuote c := Bool.or_eq_true_iff.2 (.inl h)

theorem isQuote_cases {c : Char} (h : isQuote c) :
    c = doubleQuote ∨ c = singleQuote ∨ c = backtick := by
  simpa [isQuote, or_assoc] using h

theorem isBlank_of_isQuote {c : Char} (h : isQuote c) : isBlank c = false := by
  rcases isQuote_cases h with rfl | rfl | rfl <;> decide

theorem ne_backslash_of_isQuote {q : Char} (h : isQuote q) : q ≠ backslash := by
  rintro rfl
  revert h
  decide

theorem ne_newline_of_isQuote {q : Char} (h : isQuote q) : q ≠ '\n' := by
  rintro rfl
  revert h
  decide

theorem ne_return_of_isQuote {q : Char} (h : isQuote q) : q ≠ '\r' := by
  rintro rfl
  revert h
  decide

/-! ### The closing quote -/

section Closing

variable {q c d : Char} {a b rest : List Char} {k : Nat}

@[simp] theorem closing_self (q : Char) (rest : List Char) : closing q (q :: rest) = some 1 := by
  rw [closing.eq_def]
  simp

/-- A character that is no quote and hides nothing is passed. -/
theorem closing_pass (hq : ¬(c == q) = true) (hc : ¬(c == backslash && q != backtick) = true) :
    closing q (c :: rest) = (closing q rest).map (· + 1) := by
  rw [closing.eq_def]
  simp only [hq, hc, if_false, Bool.false_eq_true]

/-- A hidden character is passed with the backslash that hides it. -/
theorem closing_hidden (hq : ¬(c == q) = true) (hc : (c == backslash && q != backtick) = true) :
    closing q (c :: d :: rest) = if d == '\n' then none else (closing q rest).map (· + 2) := by
  rw [closing.eq_def]
  simp only [hq, hc, if_true, if_false, Bool.false_eq_true]

theorem closing_hanging (hq : ¬(c == q) = true) (hc : (c == backslash && q != backtick) = true) :
    closing q [c] = none := by
  rw [closing.eq_def]
  simp only [hq, hc, if_true, if_false, Bool.false_eq_true]

theorem closing_of_ne (hq : c ≠ q) (hc : c ≠ backslash) :
    closing q (c :: rest) = (closing q rest).map (· + 1) :=
  closing_pass (by simpa using hq) (by simp [hc])

theorem closing_le_length (h : closing q a = some k) : 0 < k ∧ k ≤ a.length := by
  fun_induction closing q a generalizing k with
  | case1 | case3 | case4 => cases h
  | case2 =>
    cases h
    simp
  | case5 _ _ _ _ _ _ ih | case6 _ _ _ _ ih =>
    obtain ⟨j, hj, rfl⟩ := Option.map_eq_some_iff.1 h
    have := ih hj
    simp only [List.length_cons]
    omega

/-- Where a literal ends does not depend on what follows it. -/
theorem closing_append (h : closing q (a ++ b) = some k) (hk : k ≤ a.length) (rest : List Char) :
    closing q (a ++ rest) = some k := by
  induction a using closing.induct (q := q) generalizing k with
  | case1 =>
    have := (closing_le_length h).1
    simp only [List.length_nil] at hk
    omega
  | case2 c a hc =>
    obtain rfl := eq_of_beq hc
    rw [List.cons_append, closing_self] at h ⊢
    exact h
  | case3 c hq hc =>
    -- The search goes beyond the backslash that ends the text.
    have hk : k ≤ 1 := hk
    cases b with
    | nil =>
      rw [List.append_nil, closing_hanging hq hc] at h
      cases h
    | cons d b =>
      rw [List.singleton_append, closing_hidden hq hc] at h
      split at h
      · cases h
      · obtain ⟨j, -, rfl⟩ := Option.map_eq_some_iff.1 h
        omega
  | case4 c hq hc d a hd =>
    rw [List.cons_append, List.cons_append, closing_hidden hq hc, if_pos hd] at h
    cases h
  | case5 c hq hc d a hd ih =>
    rw [List.cons_append, List.cons_append, closing_hidden hq hc, if_neg hd] at h ⊢
    obtain ⟨j, hj, rfl⟩ := Option.map_eq_some_iff.1 h
    simp only [List.length_cons] at hk
    rw [ih hj (by omega), Option.map_some]
  | case6 c a hq hc ih =>
    rw [List.cons_append, closing_pass hq hc] at h ⊢
    obtain ⟨j, hj, rfl⟩ := Option.map_eq_some_iff.1 h
    simp only [List.length_cons] at hk
    rw [ih hj (by omega), Option.map_some]

/-- A quote that closes a literal does so as well when more text is put before it, provided the last
character of that text does not hide what follows. -/
theorem isSome_closing_append (hline : '\n' ∉ a) (hlast : a.getLast? ≠ some backslash)
    (h : (closing q b).isSome) : (closing q (a ++ b)).isSome := by
  induction a using closing.induct (q := q) with
  | case1 => exact h
  | case2 c a hc =>
    obtain rfl := eq_of_beq hc
    rw [List.cons_append, closing_self]
    rfl
  | case3 c _ hc =>
    have hc : c = backslash := by simp_all
    exact absurd (congrArg some hc) hlast
  | case4 c _ _ d a hd =>
    exact absurd (eq_of_beq hd) fun hd => hline (by simp [hd])
  | case5 c hq hc d a hd ih =>
    rw [List.cons_append, List.cons_append, closing_hidden hq hc, if_neg hd, Option.isSome_map]
    refine ih (fun hmem => hline (by simp [hmem])) fun hlast' => hlast ?_
    rw [List.getLast?_cons_cons, List.getLast?_cons, hlast']
    rfl
  | case6 c a hq hc ih =>
    rw [List.cons_append, closing_pass hq hc, Option.isSome_map]
    refine ih (fun hmem => hline (by simp [hmem])) fun hlast' => hlast ?_
    rw [List.getLast?_cons, hlast']
    rfl

/-- Whether a quote closes nowhere depends on the end of the line only through whether it closes
nowhere there, be the first character there hidden or not. -/
theorem closing_append_eq_none {old new : List Char}
    (hshown : closing q old = none → closing q new = none)
    (hhidden : closing q (backslash :: old) = none → closing q (backslash :: new) = none)
    (h : closing q (a ++ old) = none) : closing q (a ++ new) = none := by
  induction a using closing.induct (q := q) with
  | case1 => exact hshown h
  | case2 c a hc =>
    obtain rfl := eq_of_beq hc
    simp at h
  | case3 c _ hc =>
    obtain rfl : c = backslash := by simp_all
    exact hhidden h
  | case4 c hq hc d a hd => simp only [List.cons_append, closing_hidden hq hc, if_pos hd]
  | case5 c hq hc d a hd ih =>
    simp only [List.cons_append, closing_hidden hq hc, if_neg hd, Option.map_eq_none_iff] at h ⊢
    exact ih h
  | case6 c a hq hc ih =>
    simp only [List.cons_append, closing_pass hq hc, Option.map_eq_none_iff] at h ⊢
    exact ih h

theorem closing_inert (ha : Inert a) (hq : isQuote q) :
    closing q (a ++ b) = (closing q b).map (· + a.length) := by
  induction a with
  | nil => simp
  | cons c a ih =>
    obtain ⟨hplain, hbackslash, -⟩ := ha c List.mem_cons_self
    have hne : c ≠ q := fun h => by simp [h, hq] at hplain
    rw [List.cons_append, closing_of_ne hne hbackslash,
      ih fun d hd => ha d (List.mem_cons_of_mem c hd), Option.map_map]
    rfl

end Closing

/-! ### The exchange -/

section Exchange

variable {q : Char} {old new : List Char}

/-- Every quote that closes after the new text closes after the old one. -/
theorem isSome_closing_old (hq : isQuote q) (hnew : Inert new) (hline : '\n' ∉ old)
    {rest : List Char} (hold : (closing q (old ++ q :: rest)).isSome) {c : Char} (hc : isQuote c)
    (h : (closing c (new ++ q :: rest)).isSome) : (closing c (old ++ q :: rest)).isSome := by
  by_cases hcq : c = q
  · exact hcq ▸ hold
  · rw [closing_inert hnew hc, Option.isSome_map,
      closing_of_ne (Ne.symm hcq) (ne_backslash_of_isQuote hq), Option.isSome_map] at h
    have hquote : '\n' ∉ old ++ [q] := by
      simp [hline, (ne_newline_of_isQuote hq).symm]
    have hlast : (old ++ [q]).getLast? ≠ some backslash := by
      simpa using ne_backslash_of_isQuote hq
    simpa using isSome_closing_append hquote hlast h

/-- A quote before the literal that closes nowhere does not close after the exchange either. -/
theorem closing_exchange_eq_none (hq : isQuote q) (hnew : Inert new) (hline : '\n' ∉ old)
    {rest : List Char} (hold : (closing q (old ++ q :: rest)).isSome) {c : Char} (hc : isQuote c)
    {before : List Char} (h : closing c (before ++ (quoted q old ++ rest)) = none) :
    closing c (before ++ (quoted q new ++ rest)) = none := by
  rw [quoted_append] at h ⊢
  have hafter (h : closing c (old ++ q :: rest) = none) : closing c (new ++ q :: rest) = none := by
    rw [← Option.not_isSome_iff_eq_none] at h ⊢
    exact fun hsome => h (isSome_closing_old hq hnew hline hold hc hsome)
  have hshown : closing c (q :: (old ++ q :: rest)) = none →
      closing c (q :: (new ++ q :: rest)) = none := by
    intro h
    by_cases hcq : c = q
    · subst hcq
      simp at h
    · rw [closing_of_ne (Ne.symm hcq) (ne_backslash_of_isQuote hq), Option.map_eq_none_iff] at h ⊢
      exact hafter h
  refine closing_append_eq_none hshown (fun h => ?_) h
  have hc' : ¬(backslash == c) = true := by simpa using (ne_backslash_of_isQuote hc).symm
  by_cases hb : (backslash == backslash && c != backtick) = true
  · have hquote : ¬(q == '\n') = true := by simpa using ne_newline_of_isQuote hq
    rw [closing_hidden hc' hb, if_neg hquote, Option.map_eq_none_iff] at h ⊢
    exact hafter h
  · rw [closing_pass hc' hb, Option.map_eq_none_iff] at h ⊢
    exact hshown h

end Exchange

/-! ### Literals -/

/-- A part of a line, followed by `rest`, that ends outside the literals of the line: it consists of
complete literals and of characters at which none begins. -/
inductive Outside (rest : List Char) : List Char → Prop
  | nil : Outside rest []
  | code {c before} (h : literalLength (c :: (before ++ rest)) = none)
      (t : Outside rest before) : Outside rest (c :: before)
  | literal {lit before} (h : literalLength (lit ++ (before ++ rest)) = some lit.length)
      (t : Outside rest before) : Outside rest (lit ++ before)

section Literals

theorem literalLength_cons (c : Char) (rest : List Char) :
    literalLength (c :: rest) = if isQuote c then (closing c rest).map (· + 1) else none := rfl

variable {lit rest : List Char} {c : Char} {k : Nat}

theorem literalLength_le_length {cs : List Char} (h : literalLength cs = some k) :
    0 < k ∧ k ≤ cs.length := by
  cases cs with
  | nil => cases h
  | cons c cs =>
    rw [literalLength_cons] at h
    split at h
    · obtain ⟨j, hj, rfl⟩ := Option.map_eq_some_iff.1 h
      have := closing_le_length hj
      simp only [List.length_cons]
      omega
    · cases h

/-- A complete literal is not empty. -/
theorem exists_cons_of_literalLength (h : literalLength (lit ++ rest) = some lit.length) :
    ∃ c cs, lit = c :: cs := by
  refine List.exists_cons_of_ne_nil fun hnil => ?_
  rw [hnil] at h
  exact Nat.lt_irrefl 0 (literalLength_le_length h).1

/-- The literal with which a text begins, and what follows it. -/
theorem exists_literal {cs : List Char} (h : literalLength cs = some k) :
    ∃ lit rest, cs = lit ++ rest ∧ literalLength (lit ++ rest) = some lit.length ∧
      rest.length < cs.length := by
  obtain ⟨hpos, hle⟩ := literalLength_le_length h
  have hlength : (cs.take k).length = k := by
    rw [List.length_take]
    omega
  refine ⟨cs.take k, cs.drop k, (List.take_append_drop k cs).symm, ?_, ?_⟩
  · rw [List.take_append_drop, hlength, h]
  · rw [List.length_drop]
    omega

/-- Whether a text is a complete literal does not depend on what follows it. -/
theorem literalLength_append (h : literalLength (lit ++ rest) = some lit.length)
    (rest' : List Char) : literalLength (lit ++ rest') = some lit.length := by
  obtain ⟨c, lit, rfl⟩ := exists_cons_of_literalLength h
  rw [List.cons_append, literalLength_cons] at h ⊢
  split at h
  · rename_i hc
    obtain ⟨j, hj, hlength⟩ := Option.map_eq_some_iff.1 h
    simp only [List.length_cons] at hlength
    rw [if_pos hc, closing_append hj (by omega), Option.map_some, hlength, List.length_cons]
  · cases h

theorem literalsFrom_skip (passed a b : List Char) :
    literalsFrom passed a.length (a ++ b) = literalsFrom (a.reverse ++ passed) 0 b := by
  induction a generalizing passed with
  | nil => rfl
  | cons c a ih =>
    rw [List.length_cons, List.cons_append, literalsFrom, ih, List.reverse_cons, List.append_assoc]
    rfl

theorem maskFrom_skip (a b : List Char) :
    maskFrom a.length (a ++ b) = List.replicate (byteLength a) ' ' ++ maskFrom 0 b := by
  induction a with
  | nil => rfl
  | cons c a ih =>
    rw [List.length_cons, List.cons_append, maskFrom, ih, byteLength, ← List.replicate_append_replicate,
      List.append_assoc]

theorem literalsFrom_literal (h : literalLength (lit ++ rest) = some lit.length)
    (passed : List Char) : literalsFrom passed 0 (lit ++ rest) =
      (passed.reverse, lit) :: literalsFrom (lit.reverse ++ passed) 0 rest := by
  obtain ⟨c, lit, rfl⟩ := exists_cons_of_literalLength h
  rw [List.cons_append] at h ⊢
  rw [literalsFrom, h]
  simp only [List.length_cons, Nat.add_sub_cancel, List.take_succ_cons, List.take_left',
    literalsFrom_skip, List.reverse_cons, List.append_assoc, List.singleton_append]

/-- A literal is masked by as many spaces as it has bytes. -/
theorem mask_literal (h : literalLength (lit ++ rest) = some lit.length) :
    mask (lit ++ rest) = List.replicate (byteLength lit) ' ' ++ mask rest := by
  obtain ⟨c, lit, rfl⟩ := exists_cons_of_literalLength h
  rw [List.cons_append] at h ⊢
  rw [mask, maskFrom, h]
  simp only [List.length_cons, Nat.add_sub_cancel, maskFrom_skip, byteLength,
    ← List.replicate_append_replicate, List.append_assoc]
  rfl

theorem mask_code (h : literalLength (c :: rest) = none) : mask (c :: rest) = c :: mask rest := by
  rw [mask, maskFrom, h]
  rfl

theorem mask_append {a : List Char} (h : ∀ c ∈ a, isQuote c = false) (rest : List Char) :
    mask (a ++ rest) = a ++ mask rest := by
  induction a with
  | nil => rfl
  | cons c a ih =>
    obtain ⟨hc, ha⟩ := List.forall_mem_cons.1 h
    have hnone : literalLength (c :: (a ++ rest)) = none := by simp [literalLength_cons, hc]
    rw [List.cons_append, mask_code hnone, ih ha, List.cons_append]

/-- A text that may stand in any literal makes a complete one between two quotes. -/
theorem literalLength_quoted {q : Char} (hq : isQuote q) {body : List Char} (hbody : Inert body)
    (rest : List Char) : literalLength (quoted q body ++ rest) = some (quoted q body).length := by
  rw [quoted_append, literalLength_cons, if_pos hq, closing_inert hbody hq, closing_self,
    length_quoted, Nat.add_comm body.length]
  simp only [Option.map_some]
  congr 1
  omega

/-- A listed literal comes after a part of the line that ends outside the literals. -/
theorem outside_of_mem_literalsFrom {before passed cs : List Char}
    (h : (before, lit) ∈ literalsFrom passed 0 cs) :
    ∃ between rest, before = passed.reverse ++ between ∧ cs = between ++ (lit ++ rest) ∧
      Outside (lit ++ rest) between ∧ literalLength (lit ++ rest) = some lit.length := by
  induction hn : cs.length using Nat.strongRecOn generalizing passed cs with
  | _ n ih =>
  subst hn
  cases cs with
  | nil => cases h
  | cons c cs =>
    cases hc : literalLength (c :: cs) with
    | none =>
      rw [literalsFrom, hc] at h
      obtain ⟨between, rest, rfl, rfl, hout, hlit⟩ := ih cs.length (by simp) h rfl
      exact ⟨c :: between, rest, by simp, rfl, .code hc hout, hlit⟩
    | some k =>
      obtain ⟨first, later, hcs, hfirst, hshorter⟩ := exists_literal hc
      rw [hcs] at h ⊢
      rw [literalsFrom_literal hfirst] at h
      rcases List.mem_cons.1 h with h | h
      · obtain ⟨rfl, rfl⟩ := Prod.mk.inj h
        exact ⟨[], later, by simp, rfl, .nil, hfirst⟩
      · obtain ⟨between, rest, rfl, rfl, hout, hlit⟩ := ih _ hshorter h rfl
        exact ⟨first ++ between, rest, by simp, by simp, .literal hfirst hout, hlit⟩

theorem outside_of_mem_literals {before line : List Char} (h : (before, lit) ∈ literals line) :
    ∃ rest, line = before ++ (lit ++ rest) ∧ Outside (lit ++ rest) before ∧
      literalLength (lit ++ rest) = some lit.length := by
  obtain ⟨between, rest, hbefore, hline, hout, hlit⟩ := outside_of_mem_literalsFrom h
  obtain rfl : before = between := hbefore
  exact ⟨rest, hline, hout, hlit⟩

/-- The mask does not change when the text of a literal is exchanged that comes after a part which
ends outside the literals. -/
theorem Outside.mask_exchange {q : Char} {old new before : List Char} (hq : isQuote q)
    (hnew : Inert new) (hbytes : byteLength new = byteLength old) (hline : '\n' ∉ old)
    (hlit : literalLength (quoted q old ++ rest) = some (quoted q old).length)
    (h : Outside (quoted q old ++ rest) before) :
    mask (before ++ (quoted q new ++ rest)) = mask (before ++ (quoted q old ++ rest)) := by
  have hold : (closing q (old ++ q :: rest)).isSome := by
    rw [quoted_append, literalLength_cons, if_pos hq] at hlit
    obtain ⟨_, hclose, -⟩ := Option.map_eq_some_iff.1 hlit
    exact Option.isSome_of_eq_some hclose
  have hnewlit := literalLength_quoted hq hnew rest
  induction h with
  | nil =>
    rw [List.nil_append, List.nil_append, mask_literal hlit, mask_literal hnewlit,
      byteLength_quoted, byteLength_quoted, hbytes]
  | @code c before h t ih =>
    have hnone : literalLength (c :: (before ++ (quoted q new ++ rest))) = none := by
      rw [literalLength_cons] at h ⊢
      split
      · rename_i hc
        rw [if_pos hc, Option.map_eq_none_iff] at h
        rw [closing_exchange_eq_none hq hnew hline hold hc h, Option.map_none]
      · rfl
    rw [List.cons_append, List.cons_append, mask_code h, mask_code hnone, ih]
  | @literal lit before h t ih =>
    rw [List.append_assoc, List.append_assoc, mask_literal h,
      mask_literal (literalLength_append h _), ih]

theorem isQuote_of_mem_literals {q : Char} {body before line : List Char}
    (h : (before, quoted q body) ∈ literals line) : isQuote q := by
  obtain ⟨rest, -, -, hlit⟩ := outside_of_mem_literals h
  by_contra hq
  rw [quoted_append, literalLength_cons, if_neg hq] at hlit
  cases hlit

/-- The mask of a line stays the same when the text of one of its literals is exchanged for another
that has as many bytes. -/
theorem mask_exchange {q : Char} {old new before line : List Char} (hline : '\n' ∉ line)
    (h : (before, quoted q old) ∈ literals line) (hnew : Inert new)
    (hbytes : byteLength new = byteLength old) :
    ∃ rest, line = before ++ (quoted q old ++ rest) ∧
      mask (before ++ (quoted q new ++ rest)) = mask line := by
  obtain ⟨rest, rfl, hout, hlit⟩ := outside_of_mem_literals h
  have hq := isQuote_of_mem_literals h
  have hold : '\n' ∉ old := fun hmem => hline (by simp [quoted, hmem])
  exact ⟨rest, rfl, hout.mask_exchange hq hnew hbytes hold hlit⟩

end Literals

end CodeCoach.Review
