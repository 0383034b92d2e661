import CodeCoach.Proofs.Pattern.Language
import CodeCoach.Proofs.Review.Literal
import CodeCoach.Proofs.Review.Security
import CodeCoach.Proofs.Text.Line
import CodeCoach.Proofs.Text.Split

/-!
# Declarations of queries

The rule for concatenated queries looks at what is assigned to a variable whose name speaks of a
query.  It reads the line with its literals, so a plus sign at the end of a literal counts as one
that stands before the closing quote.

* `JavaScript.declaration`, `JavaScript.Concatenation`, declarations and the ways of putting a value
  and a literal together;
* `JavaScript.occursIn_declaration`: the rule speaks about a declaration whose value looks
  concatenated;
* `JavaScript.lastVisible_of_leads`: a plain literal looks so only if a plus sign ends it;
* `JavaScript.concatenation_flagged`, `JavaScript.plainLiteral_flagged`: every concatenated query is
  found, and which plain ones are taken for such.
-/

namespace CodeCoach.Review.JavaScript

open Text Pattern

/-! ### Declarations -/

/-- The words by which a name speaks of a query. -/
def queryWords : List String := ["query", "sql"]

/-- A name speaks of a query when a part of it is one of the words, in any case. -/
def NamesQuery (name : List Char) : Prop :=
  ∃ word ∈ queryWords, ∃ before part after, name = before ++ (part ++ after) ∧
    List.Forall₂ (fun l c => isLetter l c) word.toList part

/-- The declaration of a variable with its value. -/
def declaration (name value : List Char) : List Char :=
  "const ".toList ++ (name ++ (" = ".toList ++ (value ++ [';'])))

theorem mem_declaration {name value : List Char} {c : Char} (h : c ∈ value) :
    c ∈ declaration name value :=
  List.mem_append_right _ (List.mem_append_right _ (List.mem_append_right _
    (List.mem_append_left _ h)))

/-- A way of putting a value and a literal together. -/
inductive Concatenation
  | afterDouble
  | afterSingle
  | before
  | template
  deriving DecidableEq, Repr

/-- The text that puts a value after or before the literal with the given text, or into it. -/
def Concatenation.write (body value : List Char) : Concatenation → List Char
  | afterDouble => quoted doubleQuote body ++ (" + ".toList ++ value)
  | afterSingle => quoted singleQuote body ++ (" + ".toList ++ value)
  | before => value ++ (" + ".toList ++ quoted doubleQuote body)
  | template => backtick :: (body ++ ("$\x7b".toList ++ (value ++ ['\x7d', backtick])))

/-! ### What the rule looks for -/

/-- What the rule takes for a text that is put together. -/
def combined : Pattern :=
  anyOf ([[one isMark, anything, one isMark, blanks, char '+'],
    [anything, char '+', blanks, one isMark],
    [char backtick, many (· != backtick), word "$\x7b"]].map inOrder)

theorem queryConcatenation_eq : queryConcatenation =
    inOrder [edge, many isWord, anyOf (queryWords.map wordAnyCase), many isWord, blanks,
      optional (char '+'), char '=', blanks, combined] :=
  rfl

variable {indent name body value rest : List Char}

theorem leads_combined_iff {cs : List Char} : Leads [combined] cs ↔
    Leads [one isMark, anything, one isMark, blanks, char '+'] cs ∨
      Leads [anything, char '+', blanks, one isMark] cs ∨
        Leads [char backtick, many (· != backtick), word "$\x7b"] cs := by
  rw [combined, leads_anyOf_inOrder_iff]
  simp only [List.exists_mem_cons_iff, List.not_mem_nil, false_and, exists_false, or_false]

theorem isBlank_of_mem_space : ∀ c ∈ [' '], isBlank c := List.forall_mem_singleton.2 rfl

/-- A value after a literal looks concatenated. -/
theorem leads_after {q : Char} (hq : isMark q) (hbody : '\n' ∉ body) :
    Leads [combined] (quoted q body ++ (" + ".toList ++ rest)) := by
  rw [quoted_append]
  refine leads_combined_iff.2 (.inl (leads_one_iff.2 ⟨hq, leads_many_cons_iff.2 ?_⟩))
  refine ⟨body, _, rfl, bne_of_not_mem hbody, leads_one_iff.2 ⟨hq, ?_⟩⟩
  exact leads_many_cons_iff.2 ⟨[' '], _, rfl, isBlank_of_mem_space, leads_char_cons_iff.2 ⟨_, rfl, leads_nil⟩⟩

/-- A quote after a plus sign makes what stands before look concatenated. -/
theorem leads_before {q : Char} (hq : isMark q) (hvalue : '\n' ∉ value) {space : List Char}
    (hspace : ∀ c ∈ space, isBlank c) :
    Leads [combined] (value ++ '+' :: (space ++ q :: rest)) := by
  refine leads_combined_iff.2 (.inr (.inl (leads_many_cons_iff.2 ?_)))
  refine ⟨value, _, rfl, bne_of_not_mem hvalue, leads_char_cons_iff.2 ⟨_, rfl, ?_⟩⟩
  exact leads_many_cons_iff.2 ⟨space, _, rfl, hspace, leads_one_iff.2 ⟨hq, leads_nil⟩⟩

theorem leads_write (c : Concatenation) (htemplate : c = .template → backtick ∉ body)
    (hline : '\n' ∉ c.write body value) : Leads [combined] (c.write body value ++ [';']) := by
  cases c with
  | afterDouble | afterSingle =>
    rw [Concatenation.write, List.append_assoc, List.append_assoc]
    exact leads_after (by decide) fun h => hline (by simp [Concatenation.write, quoted, h])
  | before =>
    have hvalue : '\n' ∉ value ++ [' '] := by
      simpa using fun h => hline (by simp [Concatenation.write, h])
    have hleads : Leads [combined] ((value ++ [' ']) ++ '+' ::
        ([' '] ++ doubleQuote :: (body ++ doubleQuote :: [';']))) :=
      leads_before (by decide) hvalue isBlank_of_mem_space
    simpa [Concatenation.write, quoted] using hleads
  | template =>
    have hbody : ∀ c ∈ body, (c != backtick) = true := bne_of_not_mem (htemplate rfl)
    rw [Concatenation.write, List.cons_append, List.append_assoc, List.append_assoc]
    refine leads_combined_iff.2 (.inr (.inr (leads_char_cons_iff.2 ⟨_, rfl, ?_⟩)))
    exact leads_many_cons_iff.2 ⟨body, _, rfl, hbody, leads_word_cons_iff.2 ⟨_, rfl, leads_nil⟩⟩

/-! ### Where the rule speaks -/

/-- A name that speaks of a query leads the rule to the assignment. -/
theorem leads_name (hname : ∀ c ∈ name, isWord c) (hquery : NamesQuery name)
    {l : List Pattern} (h : Leads l rest) :
    Leads (many isWord :: anyOf (queryWords.map wordAnyCase) :: many isWord :: l)
      (name ++ rest) := by
  obtain ⟨w, hw, before, part, after, rfl, hpart⟩ := hquery
  refine leads_many_cons_iff.2 ⟨before, part ++ (after ++ rest), by simp, ?_, ?_⟩
  · exact fun c hc => hname c (List.mem_append_left _ hc)
  · refine leads_anyOf_cons_iff.2 ⟨wordAnyCase w, List.mem_map_of_mem hw, ?_⟩
    refine leads_wordAnyCase_cons_iff.2 ⟨part, _, rfl, hpart, ?_⟩
    exact leads_many_cons_iff.2 ⟨after, rest, rfl, fun c hc => hname c (by simp [hc]), h⟩

theorem NamesQuery.ne_nil (h : NamesQuery name) : name ≠ [] := by
  obtain ⟨w, hw, before, part, after, rfl, hpart⟩ := h
  have hall : ∀ w ∈ queryWords, 0 < w.toList.length := by decide
  have hlength : 0 < part.length := hpart.length_eq ▸ hall w hw
  intro hnil
  obtain ⟨rfl, -⟩ := List.append_eq_nil_iff.1 (List.append_eq_nil_iff.1 hnil).2
  exact absurd hlength (by decide)

/-- A name that says one of the words when its letters are made small speaks of a query. -/
theorem namesQuery_of_infix {w : String} (hw : w ∈ queryWords)
    (h : w.toList <:+: name.map Char.toLower) : NamesQuery name := by
  obtain ⟨_, _, hsplit⟩ := h
  obtain ⟨_, after, rfl, hfirst, -⟩ := List.map_eq_append_iff.1 hsplit.symm
  obtain ⟨before, part, rfl, -, hpart⟩ := List.map_eq_append_iff.1 hfirst
  refine ⟨w, hw, before, part, after, List.append_assoc .., ?_⟩
  rw [← hpart, List.forall₂_map_left_iff]
  exact List.forall₂_same.2 fun c _ => by simp [isLetter]

/-- The rule speaks about a query variable to which a text is assigned that looks concatenated. -/
theorem occursIn_declaration (hname : ∀ c ∈ name, isWord c) (hquery : NamesQuery name)
    (h : Leads [combined] (value ++ [';'])) :
    queryConcatenation.occursIn (indent ++ declaration name value) := by
  rw [queryConcatenation_eq, occursIn_edge_iff (by decide)]
  refine ⟨indent ++ "const ".toList, name ++ (" = ".toList ++ (value ++ [';'])), ?_, ?_, ?_⟩
  · exact (List.append_assoc ..).symm
  · -- The blank before the name is no word character, and the name begins with one.
    obtain ⟨c, cs, rfl⟩ := List.exists_cons_of_ne_nil hquery.ne_nil
    have hlast : (indent ++ "const ".toList).getLast? = some ' ' :=
      List.getLast?_append_of_ne_nil indent (by decide)
    have hc : isWord c := hname c List.mem_cons_self
    have hblank : isWord ' ' = false := by decide
    rw [hlast]
    simp [hc, hblank]
  · refine leads_name hname hquery (leads_many_cons_iff.2 ⟨[' '], _, rfl, isBlank_of_mem_space, ?_⟩)
    refine leads_optional_cons_iff.2 (.inr (leads_char_cons_iff.2 ⟨_, rfl, ?_⟩))
    exact leads_many_cons_iff.2 ⟨[' '], _, rfl, isBlank_of_mem_space, h⟩

/-- A declaration is no comment, since nothing of it is masked before its name. -/
theorem isComment_declaration (hindent : ∀ c ∈ indent, isBlank c) (name value : List Char) :
    isComment (mask (indent ++ declaration name value)) = false := by
  have hblank : trimStart indent = [] := List.dropWhile_eq_nil_iff.2 hindent
  have hmask (cs : List Char) : mask (indent ++ 'c' :: cs) = indent ++ 'c' :: mask cs := by
    rw [mask_append fun c hc => Bool.eq_false_iff.2 fun h => ?_, mask_code rfl]
    exact absurd (hindent c hc) (by simp [isBlank_of_isQuote h])
  have htrim (cs : List Char) : trimStart (indent ++ 'c' :: cs) = 'c' :: cs := by
    rw [trimStart_append_cons (by decide), hblank, List.nil_append]
  have hconst : declaration name value =
      'c' :: ("onst ".toList ++ (name ++ (" = ".toList ++ (value ++ [';'])))) := rfl
  rw [hconst, hmask, isComment, htrim]
  rfl

/-! ### Plain literals -/

section PlainLiteral

variable {front before : List Char}

/-- The part of a declaration before its equals sign. -/
def declared (indent name : List Char) : List Char := indent ++ ("const ".toList ++ name)

/-- The part of a declaration before its value. -/
def opening (indent name : List Char) : List Char := declared indent name ++ " = ".toList

theorem opening_append (indent name value : List Char) :
    opening indent name ++ (value ++ [';']) = indent ++ declaration name value := by
  show (indent ++ ("const ".toList ++ name)) ++ " = ".toList ++ (value ++ [';']) =
    indent ++ ("const ".toList ++ (name ++ (" = ".toList ++ (value ++ [';']))))
  simp only [List.append_assoc]

theorem of_mem_declared (hindent : ∀ c ∈ indent, isBlank c) (hname : ∀ c ∈ name, isIdentPart c)
    {c : Char} (h : c ∈ declared indent name) : isBlank c ∨ isIdentPart c := by
  have hconst : ∀ d ∈ "const ".toList, isBlank d ∨ isIdentPart d :=
    List.all_iff_forall_prop.1 (by decide)
  rcases List.mem_append.1 h with h | h
  · exact .inl (hindent c h)
  · exact (List.mem_append.1 h).elim (hconst c) fun h => .inr (hname c h)

theorem of_mem_opening (hindent : ∀ c ∈ indent, isBlank c) (hname : ∀ c ∈ name, isIdentPart c)
    {c : Char} (h : c ∈ opening indent name) : isBlank c ∨ isIdentPart c ∨ c = '=' := by
  have hequals : ∀ d ∈ " = ".toList, isBlank d ∨ isIdentPart d ∨ d = '=' :=
    List.all_iff_forall_prop.1 (by decide)
  rcases List.mem_append.1 h with h | h
  · exact (of_mem_declared hindent hname h).imp_right .inl
  · exact hequals c h

theorem isQuote_eq_false_of_mem_opening (hindent : ∀ c ∈ indent, isBlank c)
    (hname : ∀ c ∈ name, isIdentPart c) : ∀ c ∈ opening indent name, isQuote c = false := by
  intro c hc
  rw [Bool.eq_false_iff]
  intro hquote
  have hno : isBlank c = false ∧ isIdentPart c = false ∧ c ≠ '=' := by
    rcases isQuote_cases hquote with rfl | rfl | rfl <;> decide
  simpa [hno] using of_mem_opening hindent hname hc

theorem lastVisible_opening (indent name : List Char) :
    lastVisible (opening indent name) = some '=' := by
  have hsplit : opening indent name = (declared indent name ++ [' ']) ++ '=' :: [' '] := by
    simp [opening]
  rw [hsplit, lastVisible_append_cons (by decide) isBlank_of_mem_space]

/-- The equality sign is looked for in the literal alone. -/
theorem contains_opening (hindent : ∀ c ∈ indent, isBlank c) (hname : ∀ c ∈ name, isIdentPart c)
    (body : List Char) :
    contains "==" (opening indent name ++ (quoted doubleQuote body ++ [';'])) =
      contains "==" body := by
  have hequals : '=' ∉ declared indent name := fun h =>
    absurd (of_mem_declared hindent hname h) (by decide)
  have hdeclared : ¬"==".toList <:+: declared indent name := fun h =>
    hequals (h.sublist.mem (by decide))
  have hopening : ¬"==".toList <:+: opening indent name := by
    have hsplit : opening indent name = declared indent name ++ ' ' :: "= ".toList := rfl
    rw [hsplit, infix_append_cons_iff (by decide)]
    exact fun h => h.elim hdeclared (by decide)
  rw [Bool.eq_iff_iff, contains_iff_infix, contains_iff_infix, quoted_append,
    infix_append_cons_iff (by decide), or_iff_right hopening, infix_append_cons_iff (by decide)]
  exact or_iff_left (by decide)

/-- A literal without quotes in it has the only two quotes of its line. -/
theorem mark_cases (hfront : ∀ c ∈ front, isQuote c = false) (hbody : Inert body) {q : Char}
    (hq : isMark q) (h : front ++ (quoted doubleQuote body ++ [';']) = before ++ q :: rest) :
    before = front ∨ (before = front ++ doubleQuote :: body ∧ rest = [';']) := by
  have hquote := isQuote_of_isMark hq
  have hnotfront : q ∉ front := fun hmem => by simp [hfront q hmem] at hquote
  have hnotbody : q ∉ body := fun hmem => by simp [(hbody q hmem).1] at hquote
  have hnotend : q ∉ [';'] := by
    intro hmem
    rw [List.mem_singleton.1 hmem] at hq
    exact absurd hq (by decide)
  rw [quoted_append] at h
  rcases append_cons_cases hnotfront h with ⟨rfl, -⟩ | ⟨z, rfl, hz⟩
  · exact .inl rfl
  · rcases append_cons_cases hnotbody hz with ⟨rfl, -, rfl⟩ | ⟨_, -, hend⟩
    · exact .inr ⟨rfl, rfl⟩
    · exact absurd (hend ▸ List.mem_append_right _ List.mem_cons_self) hnotend

/-- A plus sign that stands before a quote of the line ends the literal. -/
theorem lastVisible_of_mark (hfront : ∀ c ∈ front, isQuote c = false)
    (hlast : lastVisible front ≠ some '+') (hbody : Inert body) {q : Char} (hq : isMark q)
    (h : front ++ (quoted doubleQuote body ++ [';']) = before ++ q :: rest)
    (hplus : lastVisible before = some '+') : lastVisible body = some '+' := by
  rcases mark_cases hfront hbody hq h with rfl | ⟨rfl, -⟩
  · exact absurd hplus hlast
  · have hquote : lastVisible (front ++ [doubleQuote]) = some doubleQuote :=
      lastVisible_append_cons (by decide) (by simp)
    rw [List.append_cons, lastVisible_append, hquote] at hplus
    cases hlastBody : lastVisible body with
    | none => simp [hlastBody, doubleQuote] at hplus
    | some c => simpa [hlastBody] using hplus

/-- A plain literal looks concatenated only when a plus sign ends it. -/
theorem lastVisible_of_leads (hfront : ∀ c ∈ front, isQuote c = false)
    (hlast : lastVisible front ≠ some '+') (hbody : Inert body)
    (hline : front ++ (quoted doubleQuote body ++ [';']) = before ++ rest)
    (h : Leads [combined] rest) : lastVisible body = some '+' := by
  rcases leads_combined_iff.1 h with h | h | h
  · -- The second quote of the match closes the literal, and a semicolon follows it.
    obtain ⟨q, _, rfl, hq, hmore⟩ := leads_one_cons_iff.1 h
    obtain ⟨text, _, rfl, -, hclose⟩ := leads_many_cons_iff.1 hmore
    obtain ⟨r, _, rfl, hr, hjoin⟩ := leads_one_cons_iff.1 hclose
    obtain ⟨space, _, rfl, -, hplus⟩ := leads_many_cons_iff.1 hjoin
    obtain ⟨tail, rfl, -⟩ := leads_char_cons_iff.1 hplus
    have hsplit : front ++ (quoted doubleQuote body ++ [';']) =
        (before ++ q :: text) ++ r :: (space ++ '+' :: tail) := by simpa using hline
    rcases mark_cases hfront hbody hr hsplit with rfl | ⟨-, hend⟩
    · have hquote := hfront q (by simp)
      simp [isQuote_of_isMark hq] at hquote
    · have hmem : '+' ∈ [';'] := hend ▸ by simp
      exact absurd hmem (by decide)
  · obtain ⟨text, _, rfl, -, hplus⟩ := leads_many_cons_iff.1 h
    obtain ⟨_, rfl, hspaced⟩ := leads_char_cons_iff.1 hplus
    obtain ⟨space, _, rfl, hspace, hmark⟩ := leads_many_cons_iff.1 hspaced
    obtain ⟨q, tail, rfl, hq, -⟩ := leads_one_cons_iff.1 hmark
    have hsplit : front ++ (quoted doubleQuote body ++ [';']) =
        ((before ++ text) ++ '+' :: space) ++ q :: tail := by simpa using hline
    exact lastVisible_of_mark hfront hlast hbody hq hsplit
      (lastVisible_append_cons (by decide) hspace)
  · obtain ⟨_, rfl, -⟩ := leads_char_cons_iff.1 h
    have hmem : backtick ∈ front ++ (quoted doubleQuote body ++ [';']) := hline ▸ by simp
    rw [quoted_append, List.mem_append, List.mem_cons, List.mem_append] at hmem
    rcases hmem with hmem | hmem | hmem | hmem
    · exact absurd (hfront _ hmem) (by decide)
    · exact absurd hmem (by decide)
    · exact absurd (hbody _ hmem).1 (by decide)
    · exact absurd hmem (by decide)

theorem lastVisible_of_occursIn (hindent : ∀ c ∈ indent, isBlank c)
    (hname : ∀ c ∈ name, isIdentPart c) (hbody : Inert body)
    (h : queryConcatenation.occursIn (indent ++ declaration name (quoted doubleQuote body))) :
    lastVisible body = some '+' := by
  have hlast : lastVisible (opening indent name) ≠ some '+' := by
    rw [lastVisible_opening]
    decide
  rw [← opening_append] at h
  obtain ⟨before, _, hline, hleads⟩ := exists_leads_of_occursIn h
  rw [queryConcatenation_eq, leads_inOrder_cons_iff] at hleads
  obtain ⟨assigned, rest, rfl, hcombined⟩ := Leads.of_append (k := [edge, many isWord,
    anyOf (queryWords.map wordAnyCase), many isWord, blanks, optional (char '+'), char '=',
    blanks]) hleads
  exact lastVisible_of_leads (isQuote_eq_false_of_mem_opening hindent hname) hlast hbody
    (hline.trans (List.append_assoc ..).symm) hcombined

/-- A plain literal that a plus sign ends looks concatenated. -/
theorem leads_of_lastVisible (hbody : Inert body) (h : lastVisible body = some '+') :
    Leads [combined] (quoted doubleQuote body ++ [';']) := by
  obtain ⟨text, space, rfl, hspace⟩ := exists_of_lastVisible_eq_some h
  have htext : '\n' ∉ doubleQuote :: text := by
    intro hmem
    rcases List.mem_cons.1 hmem with hmem | hmem
    · exact absurd hmem (by decide)
    · exact (hbody '\n' (List.mem_append_left _ hmem)).2.2 rfl
  have hleads : Leads [combined] ((doubleQuote :: text) ++ '+' ::
      (space ++ doubleQuote :: [';'])) := leads_before (by decide) htext hspace
  simpa [quoted] using hleads

/-- There is no sink without a dot or a parenthesis. -/
theorem dangerousSink_eq_none {line code : Line} (h : ∀ c ∈ code, c ≠ '.' ∧ c ≠ '(') :
    dangerousSink line code = none := by
  have hnone : ∀ sink ∈ sinks, sink.1.occursIn code = false := by
    intro sink hsink
    rw [Bool.eq_false_iff]
    intro hoccurs
    obtain ⟨before, rest, rfl, hleads⟩ := exists_leads_of_occursIn hoccurs
    have hrest : ∀ c ∈ rest, c ≠ '.' ∧ c ≠ '(' := fun c hc => h c (List.mem_append_right before hc)
    have hcall {l : List Pattern} (hl : Leads l rest) (hmem : char '(' ∈ l) : False := by
      obtain ⟨c, hc, hparenthesis⟩ := hl.exists_mem_of_one hmem
      exact (hrest c hc).2 (eq_of_beq hparenthesis)
    simp only [sinks, List.mem_cons, List.not_mem_nil, or_false] at hsink
    rcases hsink with rfl | rfl | rfl
    · obtain ⟨v, rfl, -⟩ := leads_word_cons_iff.1 (leads_inOrder_cons_iff.1 hleads)
      exact (hrest '.' (by simp)).1 rfl
    · exact hcall (leads_inOrder_cons_iff.1 hleads) (by simp)
    · exact hcall (leads_inOrder_cons_iff.1 hleads) (by simp)
  rw [dangerousSink, List.findSome?_eq_none_iff]
  intro sink hsink
  rw [Option.map_eq_none_iff, ← Option.not_isSome_iff_eq_none, Bool.not_eq_true]
  exact hnone sink hsink

theorem mask_opening (hindent : ∀ c ∈ indent, isBlank c) (hname : ∀ c ∈ name, isIdentPart c)
    (hbody : Inert body) : mask (opening indent name ++ (quoted doubleQuote body ++ [';'])) =
      opening indent name ++
        (List.replicate (byteLength (quoted doubleQuote body)) ' ' ++ [';']) := by
  rw [mask_append (isQuote_eq_false_of_mem_opening hindent hname),
    mask_literal (literalLength_quoted (by decide) hbody _)]
  rfl

theorem dangerousSink_opening (hindent : ∀ c ∈ indent, isBlank c)
    (hname : ∀ c ∈ name, isIdentPart c) (hbody : Inert body) (line : Line) :
    dangerousSink line (mask (opening indent name ++ (quoted doubleQuote body ++ [';']))) =
      none := by
  refine dangerousSink_eq_none fun c hc => ?_
  rw [mask_opening hindent hname hbody, List.mem_append, List.mem_append] at hc
  rcases hc with hc | hc | hc
  · have hopening := of_mem_opening hindent hname hc
    constructor <;>
    · rintro rfl
      exact absurd hopening (by decide)
  · rw [List.eq_of_mem_replicate hc]
    decide
  · rw [List.mem_singleton.1 hc]
    decide

end PlainLiteral

/-! ### The issues of a declaration -/

section Issues

variable {d : Document} {n : Nat}

/-- Every query that is concatenated or interpolated where it is declared is found, unless an
equality sign stands on its line. -/
theorem concatenation_flagged (hfamily : Family.ofTag d.languageTag = .javaScript)
    (hindent : ∀ c ∈ indent, isBlank c) (hname : ∀ c ∈ name, isWord c) (hquery : NamesQuery name)
    (c : Concatenation) (htemplate : c = .template → backtick ∉ body)
    (hline : (linesOf d.text)[n]? = some (indent ++ declaration name (c.write body value)))
    (hcompare : contains "==" (indent ++ declaration name (c.write body value)) = false) :
    (criticalSecurity (onLine (n + 1) (ofDocument d))).length = 1 := by
  have hnewline : '\n' ∉ c.write body value := fun h =>
    not_mem_of_mem_linesOf (List.mem_of_getElem? hline)
      (List.mem_append_right indent (mem_declaration h))
  have hoccurs : queryConcatenation.occursIn (indent ++ declaration name (c.write body value)) :=
    occursIn_declaration hname hquery (leads_write c htemplate hnewline)
  rw [criticalSecurity_onLine hfamily hline (isComment_declaration hindent name _),
    concatenatedQuery, hcompare, hoccurs]
  rfl

/-- Two declarations, of a query with a value after it and of one with a value in it. -/
def twoDeclarations : Document :=
  ⟨"const query = \"id = \" + n;\n\tconst mySQL = \x60a = $\x7bn\x7d\x60;", "js", "db.js"⟩

theorem concatenation_flagged_twoDeclarations :
    (criticalSecurity (onLine 1 (ofDocument twoDeclarations))).length = 1 ∧
      (criticalSecurity (onLine 2 (ofDocument twoDeclarations))).length = 1 := by
  have hafter : (linesOf twoDeclarations.text)[0]? = some ([] ++ declaration "query".toList
      (Concatenation.afterDouble.write "id = ".toList "n".toList)) := by
    decide +kernel
  have htemplate : (linesOf twoDeclarations.text)[1]? = some ("\t".toList ++
      declaration "mySQL".toList (Concatenation.template.write "a = ".toList "n".toList)) := by
    decide +kernel
  have hquery : NamesQuery "query".toList :=
    namesQuery_of_infix (w := "query") (by decide) (by decide)
  have hsql : NamesQuery "mySQL".toList := namesQuery_of_infix (w := "sql") (by decide) (by decide)
  exact ⟨concatenation_flagged (by decide +kernel) (by simp) (List.all_eq_true.1 (by decide)) hquery
      .afterDouble (by decide) hafter (by decide +kernel),
    concatenation_flagged (by decide +kernel) (List.all_eq_true.1 (by decide))
      (List.all_eq_true.1 (by decide)) hsql .template (by decide) htemplate (by decide +kernel)⟩

/-- A plain literal that is assigned to a query variable is taken for a concatenated query when a
plus sign ends it and it holds no equality sign, and for no other reason. -/
theorem plainLiteral_flagged (hfamily : Family.ofTag d.languageTag = .javaScript)
    (hindent : ∀ c ∈ indent, isBlank c) (hname : ∀ c ∈ name, isIdentPart c) (hbody : Inert body)
    (hline : (linesOf d.text)[n]? =
      some (indent ++ declaration name (quoted doubleQuote body))) :
    (aboutSecurity (onLine (n + 1) (ofDocument d)) ≠ [] →
        lastVisible body = some '+' ∧ contains "==" body = false) ∧
      ((∀ c ∈ name, isWord c) → NamesQuery name → lastVisible body = some '+' →
        contains "==" body = false →
          (criticalSecurity (onLine (n + 1) (ofDocument d))).length = 1) := by
  have hcomment := isComment_declaration hindent name (quoted doubleQuote body)
  have hcompare : contains "==" (indent ++ declaration name (quoted doubleQuote body)) =
      contains "==" body := by rw [← opening_append, contains_opening hindent hname]
  have hsink (line : Line) :
      dangerousSink line (mask (indent ++ declaration name (quoted doubleQuote body))) = none := by
    rw [← opening_append, dangerousSink_opening hindent hname hbody]
  constructor
  · rw [aboutSecurity_onLine hfamily hline hcomment, concatenatedQuery, hcompare, hsink]
    intro hfound
    split at hfound
    · rename_i hspeaks
      obtain ⟨hnone, hoccurs⟩ := Bool.and_eq_true_iff.1 hspeaks
      exact ⟨lastVisible_of_occursIn hindent hname hbody hoccurs, by simpa using hnone⟩
    · exact absurd rfl hfound
  · intro hword hquery hplus hnone
    have hoccurs : queryConcatenation.occursIn
        (indent ++ declaration name (quoted doubleQuote body)) :=
      occursIn_declaration hword hquery (leads_of_lastVisible hbody hplus)
    rw [criticalSecurity_onLine hfamily hline hcomment, concatenatedQuery, hcompare, hnone, hoccurs]
    rfl

/-- Two plain literals with a plus sign, which ends the first one. -/
def twoLiterals : Document :=
  ⟨"const sql = \"a +\";\nconst query$ = \"a + ?\";", "ts", "db.ts"⟩

theorem plainLiteral_flagged_twoLiterals :
    (criticalSecurity (onLine 1 (ofDocument twoLiterals))).length = 1 ∧
      aboutSecurity (onLine 2 (ofDocument twoLiterals)) = [] := by
  have hends : (linesOf twoLiterals.text)[0]? = some ([] ++ declaration "sql".toList
      (quoted doubleQuote "a +".toList)) := by
    decide +kernel
  have hinside : (linesOf twoLiterals.text)[1]? = some ([] ++ declaration "query$".toList
      (quoted doubleQuote "a + ?".toList)) := by
    decide +kernel
  have hsql : NamesQuery "sql".toList := namesQuery_of_infix (w := "sql") (by decide) (by decide)
  have hfirst := plainLiteral_flagged (by decide +kernel) (by simp)
    (List.all_eq_true.1 (by decide)) (by decide) hends
  have hsecond := plainLiteral_flagged (by decide +kernel) (by simp)
    (List.all_eq_true.1 (by decide)) (by decide) hinside
  exact ⟨hfirst.2 (List.all_eq_true.1 (by decide)) hsql (by decide) (by decide),
    not_ne_iff.1 fun h => absurd (hsecond.1 h).1 (by decide)⟩

/-- A declaration of a query whose only literal ends in a plus sign. -/
def endsInPlus : Document := ⟨"const query = \"1 +\";", "javascript", "src/app.js"⟩

theorem plainLiteral_flagged_endsInPlus :
    Family.ofTag endsInPlus.languageTag = .javaScript ∧
      (linesOf endsInPlus.text)[0]? = some (declaration "query".toList
        (quoted doubleQuote "1 +".toList)) ∧
      Inert "1 +".toList ∧ aboutSecurity (onLine 1 (ofDocument endsInPlus)) ≠ [] := by
  decide +kernel

end Issues

end CodeCoach.Review.JavaScript
