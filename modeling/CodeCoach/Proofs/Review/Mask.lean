import CodeCoach.Proofs.Pattern.Language
import CodeCoach.Proofs.Pattern.Preferred
import CodeCoach.Proofs.Review.Outside
import CodeCoach.Text.Bytes

/-!
# A mask blanks the literals of a line and leaves none

What a string literal looks like is a pattern, and the literals of a line are its successive matches:
each is the leftmost one behind the literal before it.  A mask has a space for each of their bytes and
is the line elsewhere.  The quotes that it keeps had no partner in the line and have none in the mask:
to each of them a literal behind it is one piece, with no quote that could close and nothing hidden
after its end, and spaces are as good.

* `Pattern.Covers`, the bytes within matches, and `Pattern.Blanked`;
* `stringLiteral`, the pattern, and `ends_stringLiteral_iff`: it matches where the scan of a line
  finds a literal, and as far;
* `blanked_mask`, the bytes of a mask;
* `LiteralFree`, a text in which no literal begins, `literalFree_mask` and `LiteralFree.mask_eq`;
* `mask_blanks_literals`, all of it together.
-/

namespace CodeCoach

namespace Text

theorem bytes_spaces (n : Nat) : bytes (List.replicate n ' ') = List.replicate n 0x20 := by
  induction n with
  | zero => rfl
  | succ n ih =>
    rw [List.replicate_succ, bytes_cons, ih, List.replicate_succ]
    rfl

end Text

namespace Pattern

open Text

variable {a : Pattern} {m : Match} {ms : List Match} {i : Nat}

/-- Byte `i` of a line lies within one of the matches. -/
def Covers (ms : List Match) (i : Nat) : Prop := ∃ m ∈ ms, m.start.offset ≤ i ∧ i < m.stop.offset

instance : Decidable (Covers ms i) :=
  inferInstanceAs (Decidable (∃ m ∈ ms, m.start.offset ≤ i ∧ i < m.stop.offset))

theorem covers_cons :
    Covers (m :: ms) i ↔ (m.start.offset ≤ i ∧ i < m.stop.offset) ∨ Covers ms i := by
  simp [Covers]

/-- No match lies before the place where the search began. -/
theorem not_covers_of_lt {free offset : Nat} {before : Option Char} {cs : List Char}
    (h : i < offset) : ¬Covers (a.findAllFrom free before offset cs) i := by
  rintro ⟨m, hm, hle, -⟩
  obtain ⟨passed, hpassed, -⟩ := mem_findAllFrom hm
  have hoffset : m.start.offset = offset + byteLength passed := hpassed.offset
  omega

/-- `new` is `old`, which begins at byte `offset` of a line, with a space for each byte that the
matches cover. -/
def Blanked (ms : List Match) (offset : Nat) (old new : List UInt8) : Prop :=
  ∀ i, new[i]? = if Covers ms (offset + i) then some 0x20 else old[i]?

variable {offset : Nat} {part old new : List UInt8}

/-- Bytes before the first match are kept. -/
theorem Blanked.append_kept (hpart : ∀ i < part.length, ¬Covers ms (offset + i))
    (h : Blanked ms (offset + part.length) old new) :
    Blanked ms offset (part ++ old) (part ++ new) := by
  intro i
  by_cases hi : i < part.length
  · rw [if_neg (hpart i hi), List.getElem?_append_left hi, List.getElem?_append_left hi]
  · obtain ⟨j, rfl⟩ := Nat.exists_eq_add_of_le (Nat.le_of_not_lt hi)
    rw [List.getElem?_append_right (Nat.le_of_not_lt hi), Nat.add_sub_cancel_left, ← Nat.add_assoc,
      List.getElem?_append_right (Nat.le_of_not_lt hi), Nat.add_sub_cancel_left]
    exact h j

/-- The bytes of the first match become spaces. -/
theorem Blanked.append_hidden (hstart : m.start.offset = offset)
    (hstop : m.stop.offset = offset + part.length) (h : Blanked ms m.stop.offset old new) :
    Blanked (m :: ms) offset (part ++ old) (List.replicate part.length 0x20 ++ new) := by
  intro i
  by_cases hi : i < part.length
  · rw [if_pos (covers_cons.2 (.inl (by omega))), List.getElem?_append_left (by simpa using hi),
      List.getElem?_replicate, if_pos hi]
  · obtain ⟨j, rfl⟩ := Nat.exists_eq_add_of_le (Nat.le_of_not_lt hi)
    have hcovers : Covers (m :: ms) (offset + (part.length + j)) ↔ Covers ms (m.stop.offset + j) := by
      rw [covers_cons, or_iff_right (by omega), hstop, Nat.add_assoc]
    rw [if_congr hcovers rfl rfl, List.getElem?_append_right (by simp), List.length_replicate,
      List.getElem?_append_right (Nat.le_of_not_lt hi), Nat.add_sub_cancel_left]
    exact h j

end Pattern

namespace Review

open Text Pattern

variable {q c : Char} {body cs lit rest : List Char} {s e : Place} {k : Nat}

/-! ### The pattern of a literal -/

/-- What may stand between two quotes `q`: no such quote, and a backslash only with the character
that it hides. Between backticks a backslash is a character like any other. -/
def literalBody (q : Char) : Pattern :=
  if q == backtick then many (· != q)
  else
    repeated (either (one fun c => c != q && c != backslash)
      (both (char backslash) (one (· != '\n'))))

/-- A literal between two quotes `q`. -/
def literalIn (q : Char) : Pattern := inOrder [char q, literalBody q, char q]

/-- The characters that open and close literals. -/
def quotes : List Char := [doubleQuote, singleQuote, backtick]

/-- A complete string literal. -/
def stringLiteral : Pattern := anyOf (quotes.map literalIn)

/-- `body` may stand between two quotes `q`. -/
def Fits (q : Char) (body : List Char) : Prop := body ∈ (literalBody q).language

theorem isPlain_literalBody (q : Char) : (literalBody q).isPlain := by
  unfold literalBody
  split <;> rfl

/-! ### What fits between quotes -/

theorem fits_backtick_iff : Fits backtick body ↔ backtick ∉ body := by
  have hall : Fits backtick body ↔ ∀ c ∈ body, (c != backtick) = true := Iff.rfl
  rw [hall]
  constructor
  · intro h hmem
    simpa using h _ hmem
  · intro h c hc
    simpa using fun hcq : c = backtick => h (hcq ▸ hc)

theorem fits_nil (q : Char) : Fits q [] := by
  unfold Fits literalBody
  split
  · exact fun _ hc => absurd hc List.not_mem_nil
  · exact Language.nil_mem_kstar _

/-- What fits between other quotes begins with a character that is shown or with a backslash and what
it hides. -/
theorem fits_cons_iff (hq : q ≠ backtick) : Fits q (c :: cs) ↔
    (c ≠ q ∧ c ≠ backslash ∧ Fits q cs) ∨
      (c = backslash ∧ ∃ d later, cs = d :: later ∧ d ≠ '\n' ∧ Fits q later) := by
  have hbody : literalBody q = repeated (either (one fun c => c != q && c != backslash)
      (both (char backslash) (one (· != '\n')))) := if_neg (by simpa using hq)
  unfold Fits
  rw [hbody, cons_mem_language_repeated_iff]
  constructor
  · rintro ⟨u, hshown | hhidden, v, hv, huv⟩
    · obtain ⟨d, hd, rfl⟩ := hshown
      obtain ⟨rfl, rfl⟩ := List.cons.inj huv
      obtain ⟨hquote, hback⟩ := Bool.and_eq_true_iff.1 hd
      exact .inl ⟨by simpa using hquote, by simpa using hback, hv⟩
    · obtain ⟨_, ⟨b, hb, rfl⟩, _, ⟨d, hd, rfl⟩, rfl⟩ := Language.mem_mul.1 hhidden
      obtain ⟨rfl, rfl⟩ := List.cons.inj huv
      exact .inr ⟨by simpa using hb, d, v, rfl, by simpa using hd, hv⟩
  · rintro (⟨hquote, hback, hv⟩ | ⟨rfl, d, later, rfl, hd, hv⟩)
    · exact ⟨[c], .inl ⟨c, by simp [hquote, hback], rfl⟩, cs, hv, rfl⟩
    · refine ⟨[backslash, d], .inr (Language.mem_mul.2 ?_), later, hv, rfl⟩
      exact ⟨[backslash], ⟨_, beq_self_eq_true _, rfl⟩, [d], ⟨d, by simpa using hd, rfl⟩, rfl⟩

/-- The text up to a closing quote fits, -/
theorem exists_fits_of_closing (h : closing q cs = some k) :
    ∃ body rest, Fits q body ∧ cs = body ++ q :: rest ∧ k = body.length + 1 := by
  fun_induction closing q cs generalizing k with
  | case1 | case3 | case4 => cases h
  | case2 c rest hc =>
    obtain rfl := eq_of_beq hc
    cases h
    exact ⟨[], rest, fits_nil _, rfl, rfl⟩
  | case5 c hc hhides d rest hd ih =>
    obtain ⟨j, hj, rfl⟩ := Option.map_eq_some_iff.1 h
    obtain ⟨body, later, hfits, rfl, rfl⟩ := ih hj
    obtain ⟨hback, hquote⟩ := Bool.and_eq_true_iff.1 hhides
    refine ⟨c :: d :: body, later, ?_, rfl, rfl⟩
    exact (fits_cons_iff (by simpa using hquote)).2
      (.inr ⟨by simpa using hback, d, body, rfl, by simpa using hd, hfits⟩)
  | case6 c rest hc hshown ih =>
    obtain ⟨j, hj, rfl⟩ := Option.map_eq_some_iff.1 h
    obtain ⟨body, later, hfits, rfl, rfl⟩ := ih hj
    refine ⟨c :: body, later, ?_, rfl, rfl⟩
    by_cases hq : q = backtick
    · subst hq
      rw [fits_backtick_iff] at hfits ⊢
      exact List.not_mem_cons_of_ne_of_not_mem (fun hcq => hc (beq_iff_eq.2 hcq.symm)) hfits
    · exact (fits_cons_iff hq).2 (.inl ⟨by simpa using hc, by simpa [hq] using hshown, hfits⟩)

/-- and a quote behind a text that fits closes it. -/
theorem closing_of_fits (hq : isQuote q) (h : Fits q body) (rest : List Char) :
    closing q (body ++ q :: rest) = some (body.length + 1) := by
  -- By length, since a backslash and what it hides are passed at once.
  induction hn : body.length using Nat.strongRecOn generalizing body with
  | _ n ih =>
  subst hn
  cases body with
  | nil => exact closing_self q rest
  | cons c body =>
    have hlater (hbody : Fits q body) := ih body.length (by simp) hbody rfl
    by_cases htick : q = backtick
    · subst htick
      obtain ⟨hc, hbody⟩ := List.ne_and_not_mem_of_not_mem_cons (fits_backtick_iff.1 h)
      rw [List.cons_append, closing_pass (by simpa using hc.symm) (by simp),
        hlater (fits_backtick_iff.2 hbody)]
      rfl
    · rcases (fits_cons_iff htick).1 h with ⟨hc, hback, hbody⟩ | ⟨rfl, d, later, rfl, hd, hbody⟩
      · rw [List.cons_append, closing_of_ne hc hback, hlater hbody]
        rfl
      · have hquote : ¬(backslash == q) = true := by simpa using (ne_backslash_of_isQuote hq).symm
        rw [List.cons_append, List.cons_append, closing_hidden hquote (by simpa using htick),
          if_neg (by simpa using hd), ih later.length (by simp only [List.length_cons]; omega) hbody rfl]
        rfl

/-- A complete literal is a text that fits between two quotes. -/
theorem literalLength_eq_length_iff : literalLength (lit ++ rest) = some lit.length ↔
    ∃ q body, isQuote q ∧ Fits q body ∧ lit = quoted q body := by
  constructor
  · intro h
    obtain ⟨q, lit, rfl⟩ := exists_cons_of_literalLength h
    rw [List.cons_append, literalLength_cons] at h
    split at h
    · rename_i hq
      obtain ⟨k, hk, hlength⟩ := Option.map_eq_some_iff.1 h
      obtain ⟨body, later, hfits, hsplit, rfl⟩ := exists_fits_of_closing hk
      have hsame : lit.length = (body ++ [q]).length := by
        simpa using (Nat.succ.inj hlength).symm
      have hlit : lit = body ++ [q] := (List.append_inj (by simpa using hsplit) hsame).1
      exact ⟨q, body, hq, hfits, by rw [hlit, quoted]⟩
    · cases h
  · rintro ⟨q, body, hq, hfits, rfl⟩
    rw [quoted_append, literalLength_cons, if_pos hq, closing_of_fits hq hfits, length_quoted,
      Option.map_some]

/-! ### Matches are literals -/

/-- The pattern matches where the scan of a line finds a literal, and as far. -/
theorem ends_stringLiteral_iff : Ends stringLiteral s e ↔
    ∃ lit, s.Passes lit e ∧ literalLength s.rest = some lit.length := by
  constructor
  · intro h
    obtain ⟨_, hmem, h⟩ := ends_anyOf_iff.1 h
    obtain ⟨q, hq, rfl⟩ := List.mem_map.1 hmem
    have hquote : isQuote q := List.all_eq_true.1 (by decide : quotes.all isQuote) q hq
    obtain ⟨m, hopen, h⟩ := ends_inOrder_cons_iff.1 h
    obtain ⟨n, hinside, hclose⟩ := ends_inOrder_cons_iff.1 h
    obtain ⟨body, hfits, hbody⟩ := hinside.exists_mem_language
    have hpass : s.Passes (quoted q body) e :=
      (ends_char_iff.1 hopen).trans (hbody.trans (ends_char_iff.1 hclose))
    refine ⟨_, hpass, ?_⟩
    rw [hpass.rest]
    exact literalLength_eq_length_iff.2 ⟨q, body, hquote, hfits, rfl⟩
  · rintro ⟨lit, hpass, hlit⟩
    rw [hpass.rest] at hlit
    -- The match goes through the places behind the opening quote and before the closing one.
    obtain ⟨q, body, hq, hfits, rfl⟩ := literalLength_eq_length_iff.1 hlit
    obtain ⟨m, hopen, hrest⟩ := Place.Passes.of_append (a := [q]) hpass
    obtain ⟨n, hbody, hclose⟩ := hrest.of_append
    refine ends_anyOf_iff.2 ⟨literalIn q, List.mem_map_of_mem ?_, ?_⟩
    · rcases isQuote_cases hq with rfl | rfl | rfl <;> simp [quotes]
    · exact ends_inOrder_cons_iff.2 ⟨m, ends_char_iff.2 hopen, ends_inOrder_cons_iff.2
        ⟨n, ends_of_mem_language (isPlain_literalBody q) hfits hbody, ends_char_iff.2 hclose⟩⟩

/-- A literal has only one end, so the order in which the pattern prefers its matches does not
matter. -/
theorem prefers_stringLiteral (hpass : s.Passes lit e)
    (hlit : literalLength s.rest = some lit.length) : Prefers stringLiteral s e := by
  refine prefers_of_unique (ends_stringLiteral_iff.2 ⟨lit, hpass, hlit⟩) fun m hm => ?_
  obtain ⟨lit', hpass', hlit'⟩ := ends_stringLiteral_iff.1 hm
  have hlength : lit'.length = lit.length := Option.some.inj (hlit'.symm.trans hlit)
  have hsplit : lit' ++ m.rest = lit ++ e.rest := hpass'.rest.symm.trans hpass.rest
  rw [(List.append_inj hsplit hlength).1] at hpass'
  exact hpass'.eq hpass

theorem matchAt_stringLiteral_eq_none (h : literalLength s.rest = none) :
    stringLiteral.matchAt s = none := by
  rw [← Option.not_isSome_iff_eq_none, isSome_matchAt_iff]
  rintro ⟨e, he⟩
  obtain ⟨lit, -, hlit⟩ := ends_stringLiteral_iff.1 he
  rw [h] at hlit
  cases hlit

/-! ### The bytes of a mask -/

theorem byteLength_mask (cs : List Char) : byteLength (mask cs) = byteLength cs := by
  induction cs using literal_induction with
  | nil => rfl
  | code c cs hc ih => rw [mask_code hc, byteLength, byteLength, ih]
  | literal lit cs hlit ih =>
    rw [mask_literal hlit, byteLength_append, byteLength_append, byteLength_spaces, ih]

/-- A mask has spaces for the bytes of the literals that a search finds one after the other, and the
bytes of the line elsewhere. -/
theorem blanked_mask {free offset : Nat} (hfree : free ≤ offset) (before : Option Char)
    (cs : List Char) :
    Blanked (stringLiteral.findAllFrom free before offset cs) offset (bytes cs) (bytes (mask cs)) := by
  induction cs using literal_induction generalizing free offset before with
  | nil => exact fun i => rfl
  | code c cs hc ih =>
    have hskip : stringLiteral.findAllFrom free before offset (c :: cs) =
        stringLiteral.findAllFrom free (some c) (offset + c.utf8Size) cs := by
      rw [findAllFrom, matchAt_stringLiteral_eq_none (s := ⟨before, offset, c :: cs⟩) hc]
      exact ite_self _
    rw [mask_code hc, bytes_cons, bytes_cons, hskip]
    refine .append_kept (fun i hi => not_covers_of_lt ?_) ?_
    · rw [String.length_utf8EncodeChar] at hi
      omega
    · rw [String.length_utf8EncodeChar]
      exact ih (Nat.le_trans hfree (Nat.le_add_right offset c.utf8Size)) (some c)
  | literal lit cs hlit ih =>
    obtain ⟨c, lit, rfl⟩ := exists_cons_of_literalLength hlit
    obtain ⟨e, hpass, rfl⟩ := Place.exists_passes (s := ⟨before, offset, c :: lit ++ cs⟩) rfl
    have hhit := findAllFrom_hit hpass hfree (prefers_stringLiteral hpass hlit)
    rw [hhit, mask_literal hlit, bytes_append, bytes_append, bytes_spaces, ← length_bytes]
    refine .append_hidden rfl ?_ (ih (Nat.le_refl e.offset) e.before)
    rw [length_bytes]
    exact hpass.offset

/-! ### No literal is left -/

/-- No literal begins in the text. -/
def LiteralFree (cs : List Char) : Prop := ∀ v, v <:+ cs → literalLength v = none

theorem LiteralFree.cons (hc : literalLength (c :: cs) = none) (h : LiteralFree cs) :
    LiteralFree (c :: cs) := by
  intro v hv
  rcases List.suffix_cons_iff.1 hv with rfl | hv
  · exact hc
  · exact h v hv

theorem LiteralFree.spaces (h : LiteralFree cs) (n : Nat) :
    LiteralFree (List.replicate n ' ' ++ cs) := by
  induction n with
  | zero => exact h
  | succ n ih => exact ih.cons rfl

/-- A text without literals is its own mask. -/
theorem LiteralFree.mask_eq (h : LiteralFree cs) : mask cs = cs := by
  induction cs with
  | nil => rfl
  | cons c cs ih =>
    rw [mask_code (h _ List.suffix_rfl), ih fun v hv => h v (hv.trans (List.suffix_cons c cs))]

theorem LiteralFree.occursIn_eq (h : LiteralFree cs) : stringLiteral.occursIn cs = false := by
  rw [← Bool.not_eq_true, occursIn_iff]
  rintro ⟨passed, s, e, hpass, hends⟩
  obtain ⟨lit, -, hlit⟩ := ends_stringLiteral_iff.1 hends
  have hsplit : cs = passed ++ s.rest := hpass.rest
  rw [h s.rest (hsplit ▸ List.suffix_append passed s.rest)] at hlit
  cases hlit

theorem inert_spaces (n : Nat) : Inert (List.replicate n ' ') := by
  intro c hc
  rw [List.eq_of_mem_replicate hc]
  decide

/-- What closes no quote before a literal closes none behind it. -/
theorem closing_behind_literal (hlit : literalLength (lit ++ rest) = some lit.length)
    (hline : '\n' ∉ lit) {a : List Char} (ha : '\n' ∉ a) (h : closing q (a ++ (lit ++ rest)) = none) :
    closing q rest = none := by
  obtain ⟨r, body, hr, -, rfl⟩ := literalLength_eq_length_iff.1 hlit
  rw [← Option.not_isSome_iff_eq_none] at h ⊢
  refine fun hrest => h ?_
  rw [← List.append_assoc]
  refine isSome_closing_append (by simp [ha, hline]) ?_ hrest
  rw [List.getLast?_append, getLast?_quoted]
  simpa using ne_backslash_of_isQuote hr

/-- A quote that closes nowhere in a line closes nowhere in its mask, be the first character there
hidden or not: to every quote a literal is one piece, after which nothing is hidden. -/
theorem closing_mask_eq_none (hq : isQuote q) (hline : '\n' ∉ cs) :
    (closing q cs = none → closing q (mask cs) = none) ∧
      (closing q (backslash :: cs) = none → closing q (backslash :: mask cs) = none) := by
  have hback : ¬(backslash == q) = true := by simpa using (ne_backslash_of_isQuote hq).symm
  induction cs using literal_induction with
  | nil => exact ⟨id, id⟩
  | code c cs hc ih =>
    obtain ⟨hfeed, hline⟩ := List.ne_and_not_mem_of_not_mem_cons hline
    obtain ⟨ihshown, ihhidden⟩ := ih hline
    have hshown (h : closing q (c :: cs) = none) : closing q (c :: mask cs) = none := by
      by_cases hself : c = q
      · rw [hself, closing_self] at h
        cases h
      · by_cases hc : c = backslash
        · exact hc ▸ ihhidden (hc ▸ h)
        · rw [closing_of_ne hself hc, Option.map_eq_none_iff] at h ⊢
          exact ihshown h
    rw [mask_code hc]
    refine ⟨hshown, fun h => ?_⟩
    by_cases hhides : (backslash == backslash && q != backtick) = true
    · have hfeed : ¬(c == '\n') = true := by simpa using hfeed.symm
      rw [closing_hidden hback hhides, if_neg hfeed, Option.map_eq_none_iff] at h ⊢
      exact ihshown h
    · rw [closing_pass hback hhides, Option.map_eq_none_iff] at h ⊢
      exact hshown h
  | literal lit cs hlit ih =>
    -- Behind the literal the two texts are read alike, whether its opening quote was hidden or not.
    have hlitline : '\n' ∉ lit := fun h => hline (List.mem_append_left cs h)
    obtain ⟨ihshown, -⟩ := ih fun h => hline (List.mem_append_right lit h)
    have hinert := inert_spaces (byteLength lit)
    rw [mask_literal hlit]
    constructor
    · intro h
      exact (closing_inert_eq_none_iff hq hinert).2
        (ihshown (closing_behind_literal hlit hlitline (a := []) List.not_mem_nil h))
    · intro h
      have hspaces : List.replicate (byteLength lit) ' ' ≠ [] := by
        obtain ⟨c, lit, rfl⟩ := exists_cons_of_literalLength hlit
        simpa [List.replicate_eq_nil_iff] using Nat.ne_of_gt (Place.byteLength_pos c lit)
      exact (closing_hidden_inert_eq_none_iff hq hinert hspaces).2
        (ihshown (closing_behind_literal hlit hlitline (a := [backslash]) (by decide) h))

/-- No literal begins in a mask: not at a blank, and not at a quote that opened none in the line. -/
theorem literalFree_mask (hline : '\n' ∉ cs) : LiteralFree (mask cs) := by
  induction cs using literal_induction with
  | nil => exact fun v hv => by rw [List.suffix_nil.1 hv]; rfl
  | code c cs hc ih =>
    have hcs : '\n' ∉ cs := fun h => hline (List.mem_cons_of_mem c h)
    rw [mask_code hc]
    refine (ih hcs).cons ?_
    rw [literalLength_cons] at hc ⊢
    split
    · rename_i hq
      rw [if_pos hq, Option.map_eq_none_iff] at hc
      rw [(closing_mask_eq_none hq hcs).1 hc, Option.map_none]
    · rfl
  | literal lit cs hlit ih =>
    rw [mask_literal hlit]
    exact (ih fun h => hline (List.mem_append_right lit h)).spaces _

/-! ### Lines -/

/-- **A mask blanks the string literals of a line and nothing else, and leaves none.** -/
theorem mask_blanks_literals {line : Line} (hline : '\n' ∉ line) :
    (bytes (mask line)).length = (bytes line).length ∧
    (∀ i, (bytes (mask line))[i]? =
      if Covers (stringLiteral.findAll line) i then some 0x20 else (bytes line)[i]?) ∧
    stringLiteral.occursIn (mask line) = false ∧
    mask (mask line) = mask line := by
  have hfree := literalFree_mask hline
  refine ⟨?_, fun i => ?_, hfree.occursIn_eq, hfree.mask_eq⟩
  · rw [length_bytes, length_bytes, byteLength_mask]
  · have hcovers : Covers (stringLiteral.findAllFrom 0 none 0 line) (0 + i) ↔
        Covers (stringLiteral.findAll line) i := by rw [Nat.zero_add, findAll]
    exact (blanked_mask (Nat.le_refl 0) none line i).trans (if_congr hcovers rfl rfl)

/-- A literal between quotes that have no partner: one is hidden by a backslash, and the last backslash
has nothing to hide. -/
def hangingQuotes : Line := "\"\\\" 'é\\'' \\".toList

theorem mask_blanks_literals_hangingQuotes :
    '\n' ∉ hangingQuotes ∧
    mask hangingQuotes = "\"\\\"        \\".toList ∧
    (bytes (mask hangingQuotes)).length = (bytes hangingQuotes).length ∧
    (bytes (mask hangingQuotes))[2]? = some 0x22 ∧ (bytes (mask hangingQuotes))[5]? = some 0x20 ∧
    stringLiteral.occursIn (mask hangingQuotes) = false ∧
    mask (mask hangingQuotes) = mask hangingQuotes := by
  have hline : '\n' ∉ hangingQuotes := by decide
  obtain ⟨hlength, hbytes, hfree, hagain⟩ := mask_blanks_literals hline
  exact ⟨hline, by decide +kernel, hlength, (hbytes 2).trans (by decide +kernel),
    (hbytes 5).trans (by decide +kernel), hfree, hagain⟩

/-- A backslash hides no line feed, so between backticks the two keep an earlier quote from closing. -/
example : let cs := "\"`\\\n`\"".toList
    mask cs = "\"    \"".toList ∧ mask (mask cs) = "      ".toList := by
  decide +kernel

end Review

end CodeCoach
