import CodeCoach.Proofs.Pattern.Search
import CodeCoach.Proofs.Pattern.Word
import CodeCoach.Proofs.Text.Split
import Mathlib.Computability.Language

/-!
# The texts that a pattern passes

Most patterns ask about nothing but the characters that they pass.  Where such a pattern matches can
be read off the text that lies ahead, without any account of places.

* `Pattern.language`, the texts that a pattern passes, and `Pattern.isPlain`, that it asks about
  nothing else;
* `Pattern.Ends.exists_mem_language`, `Pattern.ends_iff_of_isPlain`: a match passes a text of the
  language, and a plain pattern matches wherever such a text lies ahead;
* `Pattern.Leads`, patterns that lead a text one after the other, with a lemma for each way of
  going on;
* `Pattern.exists_leads_of_occursIn`, `Pattern.occursIn_edge_iff`: what a pattern that occurs in a
  line leads there, and where a word boundary with plain patterns after it occurs.
-/

namespace CodeCoach.Pattern

open Text

/-! ### Languages -/

/-- The texts that a pattern passes when all that it asks about a place is granted. -/
def language : Pattern → Language Char
  | done | edge | atStart | atEnd => 1
  | one p => {cs | ∃ c, p c ∧ cs = [c]}
  | many p => {cs | ∀ c ∈ cs, p c}
  | both a b => a.language * b.language
  | either a b => a.language + b.language
  | repeated a => KStar.kstar a.language

/-- Whether a pattern asks about nothing but the characters that it passes. -/
def isPlain : Pattern → Bool
  | done | one _ | many _ => true
  | edge | atStart | atEnd => false
  | both a b | either a b => a.isPlain && b.isPlain
  | repeated a => a.isPlain

variable {a b : Pattern} {s e m : Place} {p : Char → Bool} {cs : List Char}

/-- What a repetition passes begins with what the pattern passes once. -/
theorem cons_mem_language_repeated_iff {c : Char} : c :: cs ∈ (repeated a).language ↔
    ∃ u ∈ a.language, ∃ v ∈ (repeated a).language, u ++ v = c :: cs := by
  have hunfold : (repeated a).language = 1 + a.language * (repeated a).language :=
    (Language.one_add_self_mul_kstar_eq_kstar a.language).symm
  constructor
  · intro h
    rw [hunfold] at h
    rcases h with h | h
    · cases h
    · exact Language.mem_mul.1 h
  · intro h
    rw [hunfold]
    exact .inr (Language.mem_mul.2 h)

/-- A match passes a text of the pattern's language. -/
theorem Ends.exists_mem_language (h : Ends a s e) : ∃ cs ∈ a.language, s.Passes cs e := by
  induction h with
  | done | edge | atStart | atEnd => exact ⟨[], rfl, .refl _⟩
  | one hc => exact ⟨[_], ⟨_, hc, rfl⟩, rfl, rfl, rfl⟩
  | manyStop => exact ⟨[], fun _ hc => absurd hc List.not_mem_nil, .refl _⟩
  | manyStep hc _ ih =>
    obtain ⟨cs, hcs, hpass⟩ := ih
    exact ⟨_ :: cs, List.forall_mem_cons.2 ⟨hc, hcs⟩, hpass.cons⟩
  | both _ _ iha ihb =>
    obtain ⟨u, hu, hpassu⟩ := iha
    obtain ⟨v, hv, hpassv⟩ := ihb
    exact ⟨u ++ v, Language.append_mem_mul hu hv, hpassu.trans hpassv⟩
  | left _ ih =>
    obtain ⟨cs, hcs, hpass⟩ := ih
    exact ⟨cs, .inl hcs, hpass⟩
  | right _ ih =>
    obtain ⟨cs, hcs, hpass⟩ := ih
    exact ⟨cs, .inr hcs, hpass⟩
  | repeatedStop => exact ⟨[], Language.nil_mem_kstar _, .refl _⟩
  | repeatedStep _ _ _ iha iht =>
    obtain ⟨cs, hcs, hpass⟩ := iha
    obtain ⟨_, hds, hrest⟩ := iht
    obtain ⟨parts, rfl, hparts⟩ := Language.mem_kstar.1 hds
    exact ⟨cs ++ parts.flatten, Language.mem_kstar.2
      ⟨cs :: parts, rfl, List.forall_mem_cons.2 ⟨hcs, hparts⟩⟩, hpass.trans hrest⟩

theorem ends_repeated_of_mem_language
    (step : ∀ {cs s e}, cs ∈ a.language → s.Passes cs e → Ends a s e)
    (hcs : cs ∈ (repeated a).language) (hpass : s.Passes cs e) : Ends (repeated a) s e := by
  -- The parts that are not empty move on, as each step must.
  obtain ⟨parts, rfl, hparts⟩ := Language.mem_kstar_iff_exists_nonempty.1 hcs
  clear hcs
  induction parts generalizing s with
  | nil => exact (Place.Passes.refl s).eq hpass ▸ .repeatedStop
  | cons cs parts ih =>
    obtain ⟨⟨hcs, hne⟩, hparts⟩ := List.forall_mem_cons.1 hparts
    obtain ⟨m, hfirst, hrest⟩ := hpass.of_append
    have hshorter : m.rest.length < s.rest.length := by
      have := List.length_pos_of_ne_nil hne
      rw [hfirst.rest, List.length_append]
      omega
    exact .repeatedStep (step hcs hfirst) hshorter (ih hparts hrest)

theorem ends_of_mem_language (h : a.isPlain) (hcs : cs ∈ a.language) (hpass : s.Passes cs e) :
    Ends a s e := by
  induction a generalizing s e cs with
  | done =>
    obtain rfl : cs = [] := hcs
    exact (Place.Passes.refl s).eq hpass ▸ .done
  | one p =>
    obtain ⟨c, hc, rfl⟩ := hcs
    exact ends_one_of_passes hc hpass
  | many p => exact ends_many_iff.2 ⟨cs, hcs, hpass⟩
  | edge | atStart | atEnd => cases h
  | both a b iha ihb =>
    obtain ⟨ha, hb⟩ := Bool.and_eq_true_iff.1 h
    obtain ⟨u, hu, v, hv, rfl⟩ := Language.mem_mul.1 hcs
    obtain ⟨m, hpassu, hpassv⟩ := hpass.of_append
    exact .both (iha ha hu hpassu) (ihb hb hv hpassv)
  | either a b iha ihb =>
    obtain ⟨ha, hb⟩ := Bool.and_eq_true_iff.1 h
    rcases hcs with hcs | hcs
    · exact .left (iha ha hcs hpass)
    · exact .right (ihb hb hcs hpass)
  | repeated a ih => exact ends_repeated_of_mem_language (ih h) hcs hpass

/-- A plain pattern matches wherever a text of its language lies ahead. -/
theorem ends_iff_of_isPlain (h : a.isPlain) :
    Ends a s e ↔ ∃ cs ∈ a.language, s.Passes cs e :=
  ⟨Ends.exists_mem_language, fun ⟨_, hcs, hpass⟩ => ends_of_mem_language h hcs hpass⟩

/-! ### Reading on -/

/-- The patterns lead the text, one after the other. -/
def Leads : List Pattern → List Char → Prop
  | [], _ => True
  | a :: l, cs => ∃ u ∈ a.language, ∃ v, cs = u ++ v ∧ Leads l v

variable {l k : List Pattern} {c : Char}

theorem leads_nil : Leads [] cs := trivial

theorem leads_inOrder_cons_iff : Leads (inOrder k :: l) cs ↔ Leads (k ++ l) cs := by
  induction k generalizing cs with
  | nil =>
    constructor
    · rintro ⟨_, rfl, v, rfl, hv⟩
      exact hv
    · exact fun h => ⟨[], rfl, cs, rfl, h⟩
  | cons a k ih =>
    cases k with
    | nil => rfl
    | cons b k =>
      constructor
      · rintro ⟨_, hmem, v, rfl, hv⟩
        obtain ⟨u, hu, w, hw, rfl⟩ := Language.mem_mul.1 hmem
        exact ⟨u, hu, w ++ v, List.append_assoc .., ih.1 ⟨w, hw, v, rfl, hv⟩⟩
      · rintro ⟨u, hu, _, rfl, hrest⟩
        obtain ⟨w, hw, v, rfl, hv⟩ := ih.2 hrest
        exact ⟨u ++ w, Language.append_mem_mul hu hw, v, (List.append_assoc ..).symm, hv⟩

theorem leads_either_cons_iff :
    Leads (either a b :: l) cs ↔ Leads (a :: l) cs ∨ Leads (b :: l) cs := by
  constructor
  · rintro ⟨u, hu | hu, hrest⟩
    · exact .inl ⟨u, hu, hrest⟩
    · exact .inr ⟨u, hu, hrest⟩
  · rintro (⟨u, hu, hrest⟩ | ⟨u, hu, hrest⟩)
    · exact ⟨u, .inl hu, hrest⟩
    · exact ⟨u, .inr hu, hrest⟩

theorem leads_anyOf_cons_iff : Leads (anyOf k :: l) cs ↔ ∃ a ∈ k, Leads (a :: l) cs := by
  induction k with
  | nil =>
    constructor
    · rintro ⟨_, ⟨c, hc, -⟩, -⟩
      cases hc
    · rintro ⟨_, hmem, -⟩
      cases hmem
  | cons a k ih =>
    cases k with
    | nil => simp [anyOf]
    | cons b k =>
      rw [List.exists_mem_cons_iff, ← ih]
      exact leads_either_cons_iff

/-- The sequences that a choice leaves. -/
theorem leads_anyOf_inOrder_iff {k : List (List Pattern)} :
    Leads [anyOf (k.map inOrder)] cs ↔ ∃ l ∈ k, Leads l cs := by
  simp only [leads_anyOf_cons_iff, List.mem_map, exists_exists_and_eq_and, leads_inOrder_cons_iff,
    List.append_nil]

theorem leads_optional_cons_iff :
    Leads (optional a :: l) cs ↔ Leads (a :: l) cs ∨ Leads l cs := by
  rw [optional, leads_either_cons_iff]
  have hdone : Leads (done :: l) cs ↔ Leads l cs := leads_inOrder_cons_iff (k := [])
  rw [hdone]

theorem leads_edge_cons_iff : Leads (edge :: l) cs ↔ Leads l cs :=
  leads_inOrder_cons_iff (k := [])

theorem leads_atStart_cons_iff : Leads (atStart :: l) cs ↔ Leads l cs :=
  leads_inOrder_cons_iff (k := [])

theorem leads_one_cons_iff :
    Leads (one p :: l) cs ↔ ∃ c v, cs = c :: v ∧ p c ∧ Leads l v := by
  constructor
  · rintro ⟨_, ⟨c, hc, rfl⟩, v, rfl, hv⟩
    exact ⟨c, v, rfl, hc, hv⟩
  · rintro ⟨c, v, rfl, hc, hv⟩
    exact ⟨[c], ⟨c, hc, rfl⟩, v, rfl, hv⟩

theorem leads_one_iff : Leads (one p :: l) (c :: cs) ↔ p c ∧ Leads l cs := by
  rw [leads_one_cons_iff]
  constructor
  · rintro ⟨_, _, hcons, hp, hv⟩
    obtain ⟨rfl, rfl⟩ := List.cons.inj hcons
    exact ⟨hp, hv⟩
  · exact fun ⟨hp, hcs⟩ => ⟨c, cs, rfl, hp, hcs⟩

theorem leads_char_cons_iff : Leads (char c :: l) cs ↔ ∃ v, cs = c :: v ∧ Leads l v := by
  rw [char, leads_one_cons_iff]
  constructor
  · rintro ⟨d, v, rfl, hd, hv⟩
    exact ⟨v, by rw [eq_of_beq hd], hv⟩
  · rintro ⟨v, rfl, hv⟩
    exact ⟨c, v, rfl, beq_self_eq_true c, hv⟩

/-- A sequence of single characters, one for each of the given ones. -/
theorem leads_inOrder_one_cons_iff {w : List Char} {q : Char → Char → Bool} :
    Leads (inOrder (w.map fun c => one (q c)) :: l) cs ↔
      ∃ u v, cs = u ++ v ∧ List.Forall₂ (fun c d => q c d) w u ∧ Leads l v := by
  rw [leads_inOrder_cons_iff]
  induction w generalizing cs with
  | nil => simp
  | cons c w ih =>
    rw [List.map_cons, List.cons_append, leads_one_cons_iff]
    constructor
    · rintro ⟨d, _, rfl, hd, hrest⟩
      obtain ⟨u, v, rfl, hu, hv⟩ := ih.1 hrest
      exact ⟨d :: u, v, rfl, .cons hd hu, hv⟩
    · rintro ⟨_, v, rfl, hpass, hv⟩
      obtain ⟨d, u, hd, hu, rfl⟩ := List.forall₂_cons_left_iff.1 hpass
      exact ⟨d, u ++ v, rfl, hd, ih.2 ⟨u, v, rfl, hu, hv⟩⟩

theorem leads_word_cons_iff {w : String} :
    Leads (word w :: l) cs ↔ ∃ v, cs = w.toList ++ v ∧ Leads l v := by
  refine (leads_inOrder_one_cons_iff (q := fun c d => d == c)).trans ?_
  have hsame (u : List Char) :
      List.Forall₂ (fun c d => (d == c) = true) w.toList u ↔ w.toList = u := by
    rw [← List.forall₂_eq_eq_eq]
    exact ⟨.imp fun c d hd => (eq_of_beq hd).symm, .imp fun c d hd => by simp [hd]⟩
  simp only [hsame]
  constructor
  · rintro ⟨_, v, rfl, rfl, hv⟩
    exact ⟨v, rfl, hv⟩
  · rintro ⟨v, rfl, hv⟩
    exact ⟨_, v, rfl, rfl, hv⟩

theorem leads_wordAnyCase_cons_iff {w : String} : Leads (wordAnyCase w :: l) cs ↔
    ∃ u v, cs = u ++ v ∧ List.Forall₂ (fun c d => isLetter c d) w.toList u ∧ Leads l v :=
  leads_inOrder_one_cons_iff

theorem leads_many_cons_iff :
    Leads (many p :: l) cs ↔ ∃ u v, cs = u ++ v ∧ (∀ c ∈ u, p c) ∧ Leads l v := by
  constructor
  · rintro ⟨u, hu, v, rfl, hv⟩
    exact ⟨u, v, rfl, hu, hv⟩
  · rintro ⟨u, v, rfl, hu, hv⟩
    exact ⟨u, hu, v, rfl, hv⟩

/-- Where what follows a class begins with no character of it, the class passes all that it can. -/
theorem leads_many_cons_iff_of (h : ∀ c v, Leads l (c :: v) → p c = false) :
    Leads (many p :: l) cs ↔ Leads l (cs.dropWhile p) := by
  rw [leads_many_cons_iff]
  constructor
  · rintro ⟨u, v, rfl, hu, hv⟩
    rw [List.dropWhile_append_of_pos hu]
    cases v with
    | nil => exact hv
    | cons c v => rwa [List.dropWhile_cons_of_neg (by simp [h c v hv])]
  · intro hrest
    exact ⟨cs.takeWhile p, cs.dropWhile p, List.takeWhile_append_dropWhile.symm,
      List.all_eq_true.1 List.all_takeWhile, hrest⟩

theorem leads_blanks_char_iff (hc : isBlank c = false) :
    Leads (blanks :: char c :: l) cs ↔ Leads (char c :: l) (trimStart cs) := by
  refine leads_many_cons_iff_of fun d v h => ?_
  obtain ⟨_, hcons, -⟩ := leads_char_cons_iff.1 h
  exact (List.cons.inj hcons).1 ▸ hc

theorem leads_char_iff {w : String} (hw : w.toList = [c]) :
    Leads [char c] cs ↔ startsWith w cs := by
  rw [leads_char_cons_iff, startsWith_iff_prefix, hw]
  simp [leads_nil]

/-- The later patterns lead what the earlier ones leave. -/
theorem Leads.of_append (h : Leads (k ++ l) cs) : ∃ u v, cs = u ++ v ∧ Leads l v := by
  induction k generalizing cs with
  | nil => exact ⟨[], cs, rfl, h⟩
  | cons a k ih =>
    obtain ⟨u, -, _, rfl, hrest⟩ := h
    obtain ⟨w, v, rfl, hv⟩ := ih hrest
    exact ⟨u ++ w, v, (List.append_assoc ..).symm, hv⟩

/-- A class that takes part in leading a text has a character in it. -/
theorem Leads.exists_mem_of_one (h : Leads l cs) (hp : one p ∈ l) : ∃ c ∈ cs, p c := by
  induction l generalizing cs with
  | nil => cases hp
  | cons a l ih =>
    rcases List.mem_cons.1 hp with rfl | hp
    · obtain ⟨c, v, rfl, hc, -⟩ := leads_one_cons_iff.1 h
      exact ⟨c, List.mem_cons_self, hc⟩
    · obtain ⟨u, -, v, rfl, hv⟩ := h
      obtain ⟨c, hmem, hc⟩ := ih hv hp
      exact ⟨c, List.mem_append_right u hmem, hc⟩

/-! ### Occurrences -/

/-- What a match passes is a text of the language. -/
theorem text_mem_language {n : Match} (h : a.matchAt s = some n) :
    n.text ∈ a.language ∧ n.start.Passes n.text n.stop := by
  obtain ⟨cs, hcs, hpass⟩ := (ends_of_matchAt h).exists_mem_language
  rw [(Match.text_of_passes hpass).1]
  exact ⟨hcs, hpass⟩

/-- A pattern leads the text at each of its matches. -/
theorem leads_of_matchAt {n : Match} (h : a.matchAt s = some n) : Leads [a] n.start.rest := by
  obtain ⟨htext, hpass⟩ := text_mem_language h
  exact ⟨n.text, htext, n.stop.rest, hpass.rest, leads_nil⟩

theorem exists_ends_inOrder_iff (h : ∀ a ∈ l, a.isPlain) :
    (∃ e, Ends (inOrder l) s e) ↔ Leads l s.rest := by
  induction l generalizing s with
  | nil => exact ⟨fun _ => trivial, fun _ => ⟨s, .done⟩⟩
  | cons a l ih =>
    obtain ⟨ha, hl⟩ := List.forall_mem_cons.1 h
    simp only [ends_inOrder_cons_iff, ends_iff_of_isPlain ha]
    constructor
    · rintro ⟨e, m, ⟨u, hu, hpass⟩, hrest⟩
      exact ⟨u, hu, m.rest, hpass.rest, (ih hl).1 ⟨e, hrest⟩⟩
    · rintro ⟨u, hu, v, hsplit, hv⟩
      obtain ⟨m, hpass, rfl⟩ := Place.exists_passes hsplit
      obtain ⟨e, hrest⟩ := (ih hl).2 hv
      exact ⟨e, m, ⟨u, hu, hpass⟩, hrest⟩

/-- A plain pattern matches where it leads the text. -/
theorem isSome_matchAt_of_isPlain (h : a.isPlain) (s : Place) :
    (a.matchAt s).isSome ↔ Leads [a] s.rest :=
  isSome_matchAt_iff.trans (exists_ends_inOrder_iff (l := [a]) (List.forall_mem_singleton.2 h))

theorem rest_matchAt_of_isPlain (h : a.isPlain) (hrest : s.rest = e.rest) :
    (a.matchAt s).map (·.start.rest) = (a.matchAt e).map (·.start.rest) := by
  have hsame : (a.matchAt s).isSome ↔ (a.matchAt e).isSome := by
    rw [isSome_matchAt_of_isPlain h, isSome_matchAt_of_isPlain h, hrest]
  cases hs : a.matchAt s with
  | none =>
    rw [hs, ← not_iff_not, Option.not_isSome_iff_eq_none, Option.not_isSome_iff_eq_none] at hsame
    rw [hsame.1 rfl]
  | some m =>
    rw [hs] at hsame
    obtain ⟨m', he⟩ := Option.isSome_iff_exists.1 (hsame.1 rfl)
    rw [he, Option.map_some, Option.map_some, (matchAt_eq_some hs).1, (matchAt_eq_some he).1, hrest]

/-- Where a plain pattern is found does not depend on what stands before the text. -/
theorem rest_findFrom_of_isPlain (h : a.isPlain) (before before' : Option Char)
    (offset offset' : Nat) (cs : List Char) :
    (a.findFrom before offset cs).map (·.start.rest) =
      (a.findFrom before' offset' cs).map (·.start.rest) := by
  induction cs generalizing before before' offset offset' with
  | nil => exact rest_matchAt_of_isPlain h rfl
  | cons c cs ih =>
    have hhere : (a.matchAt ⟨before, offset, c :: cs⟩).map (·.start.rest) =
        (a.matchAt ⟨before', offset', c :: cs⟩).map (·.start.rest) := rest_matchAt_of_isPlain h rfl
    rw [findFrom, findFrom]
    cases hmatch : a.matchAt ⟨before, offset, c :: cs⟩ with
    | none =>
      rw [hmatch, Option.map_none, eq_comm, Option.map_eq_none_iff] at hhere
      rw [hhere]
      exact ih ..
    | some m =>
      obtain ⟨m', hmatch', hrest⟩ := Option.map_eq_some_iff.1 (hmatch ▸ hhere).symm
      rw [hmatch', Option.map_some, Option.map_some, hrest]

/-- A plain pattern is found where it leads the text, -/
theorem rest_find_of_leads (h : a.isPlain) (hleads : Leads [a] cs) :
    (a.find cs).map (·.start.rest) = some cs := by
  obtain ⟨m, hm⟩ := Option.isSome_iff_exists.1
    ((isSome_matchAt_of_isPlain h (Place.start cs)).2 hleads)
  obtain ⟨hstart, -⟩ := matchAt_eq_some hm
  have hfind : a.find cs = some m := by
    cases cs with
    | nil => exact hm
    | cons c cs =>
      rw [find, findFrom, show a.matchAt ⟨none, 0, c :: cs⟩ = some m from hm]
  rw [hfind, Option.map_some, hstart]
  rfl

/-- and otherwise behind its first character. -/
theorem rest_find_cons (h : a.isPlain) (hleads : ¬Leads [a] (c :: cs)) :
    (a.find (c :: cs)).map (·.start.rest) = (a.find cs).map (·.start.rest) := by
  have hnone : a.matchAt ⟨none, 0, c :: cs⟩ = none := by
    rw [← Option.not_isSome_iff_eq_none, isSome_matchAt_of_isPlain h]
    exact hleads
  rw [find, findFrom, hnone]
  exact rest_findFrom_of_isPlain h ..

/-- A pattern that occurs in a line leads a part of it. -/
theorem exists_leads_of_occursIn {line : List Char} (h : a.occursIn line) :
    ∃ before rest, line = before ++ rest ∧ Leads [a] rest := by
  obtain ⟨before, s, e, hpass, hends⟩ := occursIn_iff.1 h
  obtain ⟨cs, hcs, hmatch⟩ := hends.exists_mem_language
  exact ⟨before, s.rest, hpass.rest, cs, hcs, e.rest, hmatch.rest, trivial⟩

/-- A word boundary with plain patterns after it occurs in a line where the patterns lead the rest
of the line and just one side of the boundary is a word character. -/
theorem occursIn_edge_iff {line : List Char} (h : ∀ a ∈ l, a.isPlain) :
    (inOrder (edge :: l)).occursIn line ↔ ∃ before rest, line = before ++ rest ∧
      before.getLast?.any isWord ≠ rest.head?.any isWord ∧ Leads l rest := by
  rw [occursIn_iff]
  constructor
  · rintro ⟨before, s, e, hpass, hends⟩
    obtain ⟨m, hedge, hrest⟩ := ends_inOrder_cons_iff.1 hends
    cases hedge with
    | edge hedge =>
      refine ⟨before, s.rest, hpass.rest, ?_, (exists_ends_inOrder_iff h).1 ⟨e, hrest⟩⟩
      simpa [Place.atEdge, hpass.before, Place.start] using hedge
  · rintro ⟨before, rest, hline, hedge, hrest⟩
    obtain ⟨s, hpass, rfl⟩ := Place.exists_passes (s := Place.start line) hline
    obtain ⟨e, hends⟩ := (exists_ends_inOrder_iff h).2 hrest
    refine ⟨before, s, e, hpass, ends_inOrder_cons_iff.2 ⟨s, .edge ?_, hends⟩⟩
    simpa [Place.atEdge, hpass.before, Place.start] using hedge

end CodeCoach.Pattern
