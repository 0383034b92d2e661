import CodeCoach.Proofs.Pattern.Language
import CodeCoach.Proofs.Review.Literal
import CodeCoach.Proofs.Review.Security
import CodeCoach.Proofs.Text.Split

/-!
# Calls that run a query

The rule for interpolated queries looks at the first argument of an execute method.  It takes the
next quote of either kind for the end of the literal there, so an apostrophe in a query counts as
one.  What the rule says about a call is decided by what it finds after that quote.

* `Python.call`, `Python.Interpolation`, calls and the ways of putting a value into a query;
* `Python.afterApostrophe`, `Python.joins`, what follows an apostrophe, and whether a text goes on
  with an operator that joins a literal with a value;
* `Python.occursIn_of_leads`, `Python.leads_of_occursIn`: the rule speaks about a call when its
  first argument looks interpolated, and for no other reason;
* `Python.interpolation_flagged`, `Python.parameterized_flagged_iff`: which interpolated queries are
  found, and which parameterized ones are taken for such.
-/

namespace CodeCoach.Review.Python

open Text Pattern

/-! ### Calls -/

/-- The methods that run a query. -/
def executeMethods : List String := ["execute", "executemany", "executescript"]

/-- A call of a method with the given arguments. -/
def call (receiver : List Char) (method : String) (arguments : List Char) : List Char :=
  receiver ++ '.' :: (method.toList ++ '(' :: (arguments ++ [')']))

/-- A way of putting a value into a query. -/
inductive Interpolation
  | sum
  | percent
  | format
  | formatted
  deriving DecidableEq, Repr

/-- The argument that puts a value into the literal with the given text; the text of a formatted
literal holds its values itself. -/
def Interpolation.write (body value : List Char) : Interpolation → List Char
  | sum => quoted doubleQuote body ++ (" + ".toList ++ value)
  | percent => quoted doubleQuote body ++ (" % ".toList ++ value)
  | format => quoted doubleQuote body ++ (".format(".toList ++ value ++ [')'])
  | formatted => 'f' :: quoted doubleQuote body

/-- A query with its parameters, if it has any, as arguments of their own. -/
def parameterized (body : List Char) (parameters : Option (List Char)) : List Char :=
  quoted doubleQuote body ++ (parameters.map (", ".toList ++ ·)).getD []

/-- What follows the first apostrophe of a text, if it has one. -/
def afterApostrophe (body : List Char) : Option (List Char) :=
  (body.dropWhile (· != singleQuote)).tail?

/-- Whether a text goes on with an operator that joins the literal before it with a value. -/
def joins (cs : List Char) : Bool :=
  let t := trimStart cs
  startsWith "%" t || startsWith "+" t ||
    (startsWith ".format" t && startsWith "(" (trimStart (t.drop ".format".toList.length)))

/-- Whether the rule sees that a value is put into the literal with the given text: an apostrophe in
the text hides it, unless an operator stands there too. -/
def Interpolation.isSeen (body : List Char) : Interpolation → Bool
  | formatted => true
  | sum | percent | format => (afterApostrophe body).all joins

/-! ### Operators -/

/-- The operators that join a literal with a value. -/
def joint : Pattern :=
  anyOf ([[char '%'], [char '+'], [word ".format", blanks, char '(']].map inOrder)

variable {cs body tail : List Char}

theorem leads_format_iff : Leads [word ".format", blanks, char '('] cs ↔
    startsWith ".format" cs ∧ startsWith "(" (trimStart (cs.drop ".format".toList.length)) := by
  have hparenthesis (v : List Char) :
      Leads [blanks, char '('] v ↔ startsWith "(" (trimStart v) :=
    (leads_blanks_char_iff (by decide)).trans (leads_char_iff rfl)
  rw [leads_word_cons_iff, startsWith_iff_prefix]
  constructor
  · rintro ⟨v, rfl, hv⟩
    rw [List.drop_left, ← hparenthesis]
    exact ⟨⟨v, rfl⟩, hv⟩
  · rintro ⟨⟨v, rfl⟩, hv⟩
    rw [List.drop_left, ← hparenthesis] at hv
    exact ⟨v, rfl, hv⟩

theorem leads_joint_iff : Leads [joint] cs ↔ startsWith "%" cs ∨ startsWith "+" cs ∨
    (startsWith ".format" cs ∧ startsWith "(" (trimStart (cs.drop ".format".toList.length))) := by
  rw [joint, leads_anyOf_inOrder_iff]
  simp only [List.exists_mem_cons_iff, List.not_mem_nil, false_and, exists_false, or_false,
    leads_format_iff, leads_char_iff (show "%".toList = ['%'] from rfl),
    leads_char_iff (show "+".toList = ['+'] from rfl)]

theorem isBlank_of_leads_joint {c : Char} (h : Leads [joint] (c :: cs)) : isBlank c = false := by
  rcases leads_joint_iff.1 h with h | h | ⟨h, -⟩ <;>
  · obtain ⟨_, hcons⟩ := startsWith_iff_prefix.1 h
    rw [(List.cons.inj hcons).1]
    decide

theorem leads_blanks_joint_iff : Leads [blanks, joint] cs ↔ joins cs := by
  refine (leads_many_cons_iff_of fun c v h => isBlank_of_leads_joint h).trans ?_
  rw [leads_joint_iff, joins]
  simp only [Bool.or_eq_true, Bool.and_eq_true, or_assoc]
  rfl

/-- Whether an operator follows is settled before the next double quote. -/
theorem joins_append_quote (a b : List Char) : joins (a ++ doubleQuote :: b) = joins a := by
  have hblank : isBlank doubleQuote = false := by decide
  have hstarts (w : String) (hw : doubleQuote ∉ w.toList) (t : List Char) :
      startsWith w (t ++ doubleQuote :: b) = startsWith w t := startsWith_append_cons hw t b
  rw [joins, joins, trimStart_append_cons hblank, hstarts "%" (by decide), hstarts "+" (by decide),
    hstarts ".format" (by decide)]
  cases hformat : startsWith ".format" (trimStart a) with
  | false => rfl
  | true =>
    obtain ⟨v, hv⟩ := startsWith_iff_prefix.1 hformat
    rw [hv, List.append_assoc, List.drop_left, List.drop_left, trimStart_append_cons hblank,
      hstarts "(" (by decide)]

/-! ### The first argument -/

/-- What the rule looks for after the parenthesis of a call. -/
def argument : Pattern :=
  anyOf ([[charOf "fF", optional (charOf "rR"), one isMark],
    [charOf "rR", charOf "fF", one isMark],
    [one isMark, many (!isMark ·), one isMark, blanks, joint]].map inOrder)

theorem interpolatedExecute_eq : interpolatedExecute =
    inOrder [edge, anyOf (executeMethods.map word), blanks, char '(', blanks, argument] :=
  rfl

theorem leads_argument_iff : Leads [argument] cs ↔
    Leads [charOf "fF", optional (charOf "rR"), one isMark] cs ∨
      Leads [charOf "rR", charOf "fF", one isMark] cs ∨
        Leads [one isMark, many (!isMark ·), one isMark, blanks, joint] cs := by
  rw [argument, leads_anyOf_inOrder_iff]
  simp only [List.exists_mem_cons_iff, List.not_mem_nil, false_and, exists_false, or_false]

theorem isBlank_of_leads_argument {c : Char} (h : Leads [argument] (c :: cs)) :
    isBlank c = false := by
  have hletter {w : String} (hw : ∀ d ∈ w.toList, isBlank d = false) (h : w.toList.contains c) :
      isBlank c = false := hw c (List.contains_iff_mem.1 h)
  rcases leads_argument_iff.1 h with h | h | h
  · exact hletter (List.all_iff_forall_prop.1 (by decide)) (leads_one_iff.1 h).1
  · exact hletter (List.all_iff_forall_prop.1 (by decide)) (leads_one_iff.1 h).1
  · rcases Bool.or_eq_true_iff.1 (leads_one_iff.1 h).1 with h | h <;>
    · rw [eq_of_beq h]
      decide

theorem exists_mark_of_leads (h : Leads [blanks, argument] cs) : ∃ c ∈ cs, isMark c := by
  obtain ⟨u, v, rfl, -, hv⟩ := leads_many_cons_iff.1 h
  have hmark : ∃ c ∈ v, isMark c := by
    rcases leads_argument_iff.1 hv with h | h | h <;> exact h.exists_mem_of_one (by simp)
  obtain ⟨c, hmem, hc⟩ := hmark
  exact ⟨c, List.mem_append_right u hmem, hc⟩

theorem afterApostrophe_of_not_mem (h : singleQuote ∉ body) : afterApostrophe body = none := by
  have hnil : body.dropWhile (· != singleQuote) = [] :=
    List.dropWhile_eq_nil_iff.2 (bne_of_not_mem h)
  rw [afterApostrophe, hnil]
  rfl

theorem afterApostrophe_append_cons (h : singleQuote ∉ body) (rest : List Char) :
    afterApostrophe (body ++ singleQuote :: rest) = some rest := by
  rw [afterApostrophe, List.dropWhile_append_of_pos (bne_of_not_mem h),
    List.dropWhile_cons_of_neg (by simp)]
  rfl

/-- From a literal on, an operator has to follow the next quote. -/
theorem leads_literal_iff {q : Char} (hq : isMark q) (hbody : ∀ c ∈ body, isMark c = false) :
    Leads [many (!isMark ·), one isMark, blanks, joint] (body ++ q :: tail) ↔ joins tail := by
  have hpass : ∀ c ∈ body, (!isMark c) = true := fun c hc => by rw [hbody c hc]; rfl
  rw [leads_many_cons_iff_of fun c v h => by simp [(leads_one_iff.1 h).1],
    List.dropWhile_append_of_pos hpass, List.dropWhile_cons_of_neg (by simp [hq]), leads_one_iff,
    and_iff_right hq, leads_blanks_joint_iff]

/-- The rule takes the first quote of either kind for the end of a literal and goes on there. -/
theorem leads_quoted_iff (hbody : doubleQuote ∉ body) :
    Leads [blanks, argument] (quoted doubleQuote body ++ tail) ↔
      (afterApostrophe body).elim (joins tail) joins := by
  have hdouble : isMark doubleQuote := by decide
  have hopen : Leads [argument] (doubleQuote :: (body ++ doubleQuote :: tail)) ↔
      Leads [many (!isMark ·), one isMark, blanks, joint] (body ++ doubleQuote :: tail) := by
    rw [leads_argument_iff, charOf, charOf, leads_one_iff, leads_one_iff, leads_one_iff,
      and_iff_right hdouble, or_iff_right fun h => absurd h.1 (by decide),
      or_iff_right fun h => absurd h.1 (by decide)]
  rw [quoted_append, blanks, leads_many_cons_iff_of fun c v h => isBlank_of_leads_argument h,
    List.dropWhile_cons_of_neg (by decide), hopen]
  have hplain {text : List Char} (hd : doubleQuote ∉ text) (hs : singleQuote ∉ text) :
      ∀ c ∈ text, isMark c = false := fun c hc =>
    isMark_eq_false (fun h => hd (h ▸ hc)) fun h => hs (h ▸ hc)
  by_cases happ : singleQuote ∈ body
  · obtain ⟨before, rest, rfl, hbefore⟩ := List.eq_append_cons_of_mem happ
    have hd : doubleQuote ∉ before := fun h => hbody (List.mem_append_left _ h)
    rw [List.append_assoc, List.cons_append, leads_literal_iff (by decide) (hplain hd hbefore),
      joins_append_quote, afterApostrophe_append_cons hbefore, Option.elim_some]
  · rw [leads_literal_iff hdouble (hplain hbody happ), afterApostrophe_of_not_mem happ,
      Option.elim_none]

/-- An operator after a literal is seen unless the literal seems to end before. -/
theorem leads_joined_iff (hbody : doubleQuote ∉ body) (htail : joins tail) :
    Leads [blanks, argument] (quoted doubleQuote body ++ tail) ↔
      (afterApostrophe body).all joins := by
  rw [leads_quoted_iff hbody]
  cases afterApostrophe body with
  | none => simp [htail]
  | some rest => rfl

theorem leads_write_iff {value : List Char} (hbody : doubleQuote ∉ body) (i : Interpolation) :
    Leads [blanks, argument] (i.write body value ++ [')']) ↔ i.isSeen body := by
  cases i with
  | sum | percent | format =>
    rw [Interpolation.write, List.append_assoc]
    exact leads_joined_iff hbody rfl
  | formatted =>
    refine iff_of_true ?_ rfl
    refine leads_many_cons_iff.2 ⟨[], _, rfl, by simp, leads_argument_iff.2 (.inl ?_)⟩
    exact leads_one_iff.2 ⟨by decide, leads_optional_cons_iff.2
      (.inr (leads_one_iff.2 ⟨by decide, leads_nil⟩))⟩

/-- A literal without an operator after it seems to be joined when it seems to end before one. -/
theorem leads_parameterized_iff (hbody : doubleQuote ∉ body) (parameters : Option (List Char)) :
    Leads [blanks, argument] (parameterized body parameters ++ [')']) ↔
      (afterApostrophe body).any joins := by
  have htail : joins ((parameters.map (", ".toList ++ ·)).getD [] ++ [')']) = false := by
    cases parameters <;> rfl
  rw [parameterized, List.append_assoc, leads_quoted_iff hbody, htail]
  cases afterApostrophe body <;> rfl

/-! ### Where the rule speaks -/

theorem not_mem_executeMethods {method : String} (h : method ∈ executeMethods) :
    '(' ∉ method.toList ∧ "execute".toList <+: method.toList := by
  revert method
  decide +kernel

section Occurrence

variable {before rest : List Char} {method : String}

theorem occursIn_of_leads (hmethod : method ∈ executeMethods) (h : Leads [blanks, argument] rest) :
    interpolatedExecute.occursIn (before ++ '.' :: (method.toList ++ '(' :: rest)) := by
  rw [interpolatedExecute_eq, occursIn_edge_iff (by decide)]
  refine ⟨before ++ ['.'], method.toList ++ '(' :: rest, by simp, ?_, ?_⟩
  · obtain ⟨more, hmore⟩ := (not_mem_executeMethods hmethod).2
    rw [List.getLast?_concat, ← hmore]
    show (isWord '.' ≠ isWord 'e')
    decide
  · refine leads_anyOf_cons_iff.2 ⟨word method, List.mem_map_of_mem hmethod, ?_⟩
    exact leads_word_cons_iff.2 ⟨_, rfl, leads_many_cons_iff.2
      ⟨[], _, rfl, by simp, leads_char_cons_iff.2 ⟨rest, rfl, h⟩⟩⟩

/-- The rule speaks about a call only when its first argument looks interpolated, provided that the
arguments hold no other such call with a quote after it. -/
theorem leads_of_occursIn (hbefore : '(' ∉ before) (hmethod : method ∈ executeMethods)
    (hrest : ∀ u v, rest = u ++ '(' :: v → "execute".toList <:+: u → ∀ c ∈ v, isMark c = false)
    (h : interpolatedExecute.occursIn (before ++ '.' :: (method.toList ++ '(' :: rest))) :
    Leads [blanks, argument] rest := by
  rw [interpolatedExecute_eq, occursIn_edge_iff (by decide)] at h
  obtain ⟨head, found, hline, -, hfound⟩ := h
  obtain ⟨_, hmem, hnamed⟩ := leads_anyOf_cons_iff.1 hfound
  obtain ⟨name, hname, rfl⟩ := List.mem_map.1 hmem
  obtain ⟨_, rfl, hspaced⟩ := leads_word_cons_iff.1 hnamed
  obtain ⟨space, _, rfl, hspace, hopened⟩ := leads_many_cons_iff.1 hspaced
  obtain ⟨after, rfl, hafter⟩ := leads_char_cons_iff.1 hopened
  obtain ⟨hname, hbegins⟩ := not_mem_executeMethods hname
  have hcall : '(' ∉ before ++ '.' :: method.toList := by
    simp [hbefore, (not_mem_executeMethods hmethod).1]
  have hfree : '(' ∉ name.toList ++ space := by
    refine fun h => (List.mem_append.1 h).elim hname fun h => ?_
    exact absurd (hspace _ h) (by decide)
  have hsplit : (before ++ '.' :: method.toList) ++ '(' :: rest =
      (head ++ (name.toList ++ space)) ++ '(' :: after := by simpa using hline
  rcases append_cons_cases hcall hsplit with ⟨-, -, rfl⟩ | ⟨u, hhead, rfl⟩
  · exact hafter
  · -- The match lies within the arguments, where no quote follows it.
    obtain ⟨u, -, rfl⟩ := append_eq_append_cons hfree hhead
    have hinside : "execute".toList <:+: u ++ (name.toList ++ space) :=
      (hbegins.isInfix.trans (List.prefix_append _ _).isInfix).trans
        (List.suffix_append _ _).isInfix
    obtain ⟨c, hc, hmark⟩ := exists_mark_of_leads hafter
    exact absurd hmark (by simp [hrest _ after rfl hinside c hc])

end Occurrence

/-! ### Arguments without another call -/

/-- No execute method is named in the text. -/
def Quiet (cs : List Char) : Prop := ¬ "execute".toList <:+: cs

theorem quiet_iff : Quiet cs ↔ contains "execute" cs = false := by
  rw [Quiet, ← contains_iff_infix, Bool.not_eq_true]

theorem Quiet.append_cons {a b : List Char} (ha : Quiet a) (hb : Quiet b) {c : Char}
    (hc : c ∉ "execute".toList) : Quiet (a ++ c :: b) := fun h =>
  ((infix_append_cons_iff hc).1 h).elim ha hb

theorem quiet_nil : Quiet [] := by
  unfold Quiet
  decide

theorem Quiet.cons (h : Quiet cs) {c : Char} (hc : c ∉ "execute".toList) : Quiet (c :: cs) :=
  quiet_nil.append_cons h hc

theorem Quiet.quoted_append {a b : List Char} (ha : Quiet a) (hb : Quiet b) :
    Quiet (quoted doubleQuote a ++ b) := by
  rw [Review.quoted_append]
  exact (ha.append_cons hb (by decide)).cons (by decide)

theorem quiet_write {value : List Char} (hbody : Quiet body) (hvalue : Quiet value)
    (i : Interpolation) : Quiet (i.write body value ++ [')']) := by
  have hclosed : Quiet (value ++ [')']) := hvalue.append_cons quiet_nil (by decide)
  cases i with
  | sum | percent =>
    rw [Interpolation.write, List.append_assoc]
    exact hbody.quoted_append (((hclosed.cons (by decide)).cons (by decide)).cons (by decide))
  | format =>
    have hname : Quiet ".format".toList := by
      unfold Quiet
      decide
    have htail : Quiet (".format".toList ++ '(' :: (value ++ [')'] ++ [')'])) :=
      hname.append_cons (hclosed.append_cons quiet_nil (by decide)) (by decide)
    rw [Interpolation.write, List.append_assoc]
    simpa using hbody.quoted_append htail
  | formatted =>
    exact (hbody.quoted_append (quiet_nil.cons (by decide))).cons (by decide)

/-- In a call with parameters that hold no quotes, no quote follows another call. -/
theorem quiet_parameterized (hbody : Quiet body) (htail : ∀ c ∈ tail, isMark c = false)
    (u v : List Char) (h : quoted doubleQuote body ++ tail = u ++ '(' :: v)
    (hu : "execute".toList <:+: u) : ∀ c ∈ v, isMark c = false := by
  have hopen : Quiet (doubleQuote :: body) := hbody.cons (by decide)
  have h : (doubleQuote :: body) ++ doubleQuote :: tail = u ++ '(' :: v := by
    simpa [quoted_append] using h
  rcases List.append_eq_append_iff.1 h with ⟨w, rfl, hw⟩ | ⟨w, hw, -⟩
  · cases w with
    | nil => exact absurd (List.cons.inj hw).1 (by decide)
    | cons _ w =>
      obtain ⟨-, rfl⟩ := List.cons.inj hw
      exact fun c hc => htail c (by simp [hc])
  · exact absurd (hu.trans ⟨[], w, hw.symm⟩) hopen

/-! ### The issues of a call -/

section Issues

variable {d : Document} {n : Nat} {indent receiver value : List Char} {method : String}

theorem isComment_call (hindent : ∀ c ∈ indent, isBlank c) (hreceiver : '#' ∉ receiver)
    (arguments : List Char) : isComment (indent ++ call receiver method arguments) = false := by
  have hsign : '#' ∉ indent ++ receiver := by
    refine fun h => (List.mem_append.1 h).elim (fun h => ?_) hreceiver
    exact absurd (hindent _ h) (by decide)
  rw [isComment, call, ← List.append_assoc, trimStart_append_cons (by decide),
    startsWith_append_cons (by decide), Bool.eq_false_iff]
  intro h
  obtain ⟨rest, hrest⟩ := startsWith_iff_prefix.1 h
  have hmem : '#' ∈ trimStart (indent ++ receiver) := hrest ▸ List.mem_cons_self
  exact hsign ((List.dropWhile_sublist _).mem hmem)

theorem not_mem_before (hindent : ∀ c ∈ indent, isBlank c)
    (hreceiver : ∀ c ∈ receiver, c ≠ '#' ∧ c ≠ '(') : '(' ∉ indent ++ receiver := by
  refine fun h => (List.mem_append.1 h).elim (fun h => ?_) fun h => (hreceiver _ h).2 rfl
  exact absurd (hindent _ h) (by decide)

/-- On the line of a call all issues about security are critical, and there is one at most. -/
theorem security_call (hfamily : Family.ofTag d.languageTag = .python)
    (hindent : ∀ c ∈ indent, isBlank c) (hreceiver : ∀ c ∈ receiver, c ≠ '#' ∧ c ≠ '(')
    {arguments : List Char}
    (hline : (linesOf d.text)[n]? = some (indent ++ call receiver method arguments)) :
    criticalSecurity (onLine (n + 1) (ofDocument d)) =
        aboutSecurity (onLine (n + 1) (ofDocument d)) ∧
      (aboutSecurity (onLine (n + 1) (ofDocument d))).length =
        if interpolatedExecute.occursIn
          ((indent ++ receiver) ++ '.' :: (method.toList ++ '(' :: (arguments ++ [')'])))
        then 1 else 0 := by
  have hcomment : isComment (indent ++ call receiver method arguments) = false :=
    isComment_call hindent (fun h => (hreceiver _ h).1 rfl) arguments
  rw [aboutSecurity_onLine hfamily hline hcomment, criticalSecurity_onLine hfamily hline hcomment,
    interpolatedSql, call, ← List.append_assoc]
  refine ⟨rfl, ?_⟩
  split <;> rfl

/-- A query into which a value is put is found where the rule sees that, and missed where it does
not and the arguments name no execute method themselves. The receiver may be any text without a
comment sign and a parenthesis, such as a dotted name. -/
theorem interpolation_flagged (hfamily : Family.ofTag d.languageTag = .python)
    (hindent : ∀ c ∈ indent, isBlank c) (hreceiver : ∀ c ∈ receiver, c ≠ '#' ∧ c ≠ '(')
    (hmethod : method ∈ executeMethods) (hbody : doubleQuote ∉ body) (i : Interpolation)
    (hline : (linesOf d.text)[n]? = some (indent ++ call receiver method (i.write body value))) :
    (i.isSeen body → (criticalSecurity (onLine (n + 1) (ofDocument d))).length = 1) ∧
      (i.isSeen body = false → contains "execute" body = false → contains "execute" value = false →
        criticalSecurity (onLine (n + 1) (ofDocument d)) = []) := by
  obtain ⟨hcritical, hlength⟩ := security_call hfamily hindent hreceiver hline
  rw [hcritical]
  constructor
  · intro hseen
    rw [hlength, if_pos (occursIn_of_leads hmethod ((leads_write_iff hbody i).2 hseen))]
  · intro hseen hquiet hvalue
    have hwrite := quiet_write (quiet_iff.2 hquiet) (quiet_iff.2 hvalue) i
    have hrest (u v : List Char) (h : i.write body value ++ [')'] = u ++ '(' :: v)
        (hu : "execute".toList <:+: u) : ∀ c ∈ v, isMark c = false :=
      absurd (hu.trans ⟨[], '(' :: v, h.symm⟩) hwrite
    rw [if_neg] at hlength
    · exact List.eq_nil_of_length_eq_zero hlength
    · intro h
      have hleads := leads_of_occursIn (not_mem_before hindent hreceiver) hmethod hrest h
      exact absurd ((leads_write_iff hbody i).1 hleads) (by simp [hseen])

/-- Two calls that put a value into a query; the second query compares with a quoted text. -/
def twoQueries : Document :=
  ⟨"  db.cur.executemany(\"id = \" % n)\n\tcur.execute(\"a = 'x' AND b = \" + m)\n", "py", "db.py"⟩

theorem interpolation_flagged_twoQueries :
    (criticalSecurity (onLine 1 (ofDocument twoQueries))).length = 1 ∧
      criticalSecurity (onLine 2 (ofDocument twoQueries)) = [] := by
  have hpercent : (linesOf twoQueries.text)[0]? = some ("  ".toList ++
      call "db.cur".toList "executemany"
        (Interpolation.percent.write "id = ".toList "n".toList)) := by
    decide +kernel
  have hsum : (linesOf twoQueries.text)[1]? = some ("\t".toList ++ call "cur".toList "execute"
      (Interpolation.sum.write "a = 'x' AND b = ".toList "m".toList)) := by
    decide +kernel
  have hfirst := interpolation_flagged (by decide +kernel) (List.all_eq_true.1 (by decide))
    (List.all_iff_forall_prop.1 (by decide)) (by decide) (by decide +kernel) .percent hpercent
  have hsecond := interpolation_flagged (by decide +kernel) (List.all_eq_true.1 (by decide))
    (List.all_iff_forall_prop.1 (by decide)) (by decide) (by decide +kernel) .sum hsum
  exact ⟨hfirst.1 (by decide +kernel),
    hsecond.2 (by decide +kernel) (by decide +kernel) (by decide +kernel)⟩

/-- A call that puts a value into a query after a quoted text. -/
def quotedValue : Document :=
  ⟨"cur.execute(\"a = 'x' AND b = \" + n)", "python", "app/db.py"⟩

theorem interpolation_missed_quotedValue :
    Family.ofTag quotedValue.languageTag = .python ∧
      (linesOf quotedValue.text)[0]? = some (call "cur".toList "execute"
        (Interpolation.sum.write "a = 'x' AND b = ".toList "n".toList)) ∧
      (doubleQuote ∉ "a = 'x' AND b = ".toList ∧ backslash ∉ "a = 'x' AND b = ".toList) ∧
      (criticalSecurity (onLine 1 (ofDocument quotedValue))).length ≠ 1 := by
  decide +kernel

/-- A query with parameters of their own is taken for an interpolated one just when its first
apostrophe is followed by an operator. -/
theorem parameterized_flagged_iff (hfamily : Family.ofTag d.languageTag = .python)
    (hindent : ∀ c ∈ indent, isBlank c) (hreceiver : ∀ c ∈ receiver, c ≠ '#' ∧ c ≠ '(')
    (hmethod : method ∈ executeMethods) (hbody : doubleQuote ∉ body)
    (hexecute : contains "execute" body = false) {parameters : Option (List Char)}
    (hparameters : ∀ p ∈ parameters, ∀ c ∈ p, c ≠ doubleQuote ∧ c ≠ singleQuote)
    (hline : (linesOf d.text)[n]? =
      some (indent ++ call receiver method (parameterized body parameters))) :
    aboutSecurity (onLine (n + 1) (ofDocument d)) ≠ [] ↔ (afterApostrophe body).any joins := by
  have hunquoted : ∀ c ∈ (parameters.map (", ".toList ++ ·)).getD [] ++ [')'],
      isMark c = false := by
    cases parameters with
    | none => exact List.all_iff_forall_prop.1 (by decide)
    | some p =>
      have hseparator : ∀ c ∈ ", ".toList, isMark c = false :=
        List.all_iff_forall_prop.1 (by decide)
      intro c hc
      rcases List.mem_append.1 hc with hc | hc
      · rcases List.mem_append.1 hc with hc | hc
        · exact hseparator c hc
        · exact isMark_eq_false (hparameters p rfl c hc).1 (hparameters p rfl c hc).2
      · rw [List.mem_singleton.1 hc]
        decide
  have hrest (u v : List Char) (h : parameterized body parameters ++ [')'] = u ++ '(' :: v) :
      "execute".toList <:+: u → ∀ c ∈ v, isMark c = false :=
    quiet_parameterized (quiet_iff.2 hexecute) hunquoted u v ((List.append_assoc ..).symm.trans h)
  rw [← leads_parameterized_iff hbody parameters, ← List.length_pos_iff,
    (security_call hfamily hindent hreceiver hline).2]
  constructor
  · intro h
    split at h
    · rename_i hoccurs
      exact leads_of_occursIn (not_mem_before hindent hreceiver) hmethod hrest hoccurs
    · cases h
  · intro h
    rw [if_pos (occursIn_of_leads hmethod h)]
    exact Nat.one_pos

/-- Two calls with parameters; the second query compares with a pattern. -/
def twoComparisons : Document :=
  ⟨"cur.execute(\"a = 'x' AND b > %s\", (n,))\ncur.execute(\"a LIKE '%x'\")", "Python", "db.py"⟩

theorem parameterized_flagged_twoComparisons :
    aboutSecurity (onLine 1 (ofDocument twoComparisons)) = [] ∧
      aboutSecurity (onLine 2 (ofDocument twoComparisons)) ≠ [] := by
  have hgiven : (linesOf twoComparisons.text)[0]? = some ([] ++ call "cur".toList "execute"
      (parameterized "a = 'x' AND b > %s".toList (some "(n,)".toList))) := by
    decide +kernel
  have hnone : (linesOf twoComparisons.text)[1]? = some ([] ++ call "cur".toList "execute"
      (parameterized "a LIKE '%x'".toList none)) := by
    decide +kernel
  have hparameters : ∀ c ∈ "(n,)".toList, c ≠ doubleQuote ∧ c ≠ singleQuote :=
    List.all_iff_forall_prop.1 (by decide)
  have hfirst := parameterized_flagged_iff (by decide +kernel) (by simp)
    (List.all_iff_forall_prop.1 (by decide)) (by decide) (by decide +kernel) (by decide +kernel)
    (by simpa using hparameters) hgiven
  have hsecond := parameterized_flagged_iff (by decide +kernel) (by simp)
    (List.all_iff_forall_prop.1 (by decide)) (by decide) (by decide +kernel) (by decide +kernel)
    (by simp) hnone
  exact ⟨not_ne_iff.1 fun h => absurd (hfirst.1 h) (by decide +kernel),
    hsecond.2 (by decide +kernel)⟩

/-- A call without any value, whose query looks for a pattern. -/
def quotedPattern : Document := ⟨"cur.execute(\"a LIKE '%x'\")", "python", "app/db.py"⟩

theorem parameterized_flagged_quotedPattern :
    Family.ofTag quotedPattern.languageTag = .python ∧
      (linesOf quotedPattern.text)[0]? = some (call "cur".toList "execute"
        (parameterized "a LIKE '%x'".toList none)) ∧
      (doubleQuote ∉ "a LIKE '%x'".toList ∧ backslash ∉ "a LIKE '%x'".toList) ∧
      contains "execute" "a LIKE '%x'".toList = false ∧
      aboutSecurity (onLine 1 (ofDocument quotedPattern)) ≠ [] := by
  decide +kernel

end Issues

end CodeCoach.Review.Python
