import CodeCoach.Proofs.Review.Literal
import CodeCoach.Proofs.Review.NestedLoop
import CodeCoach.Proofs.Review.Security
import CodeCoach.Proofs.Pattern.Language

/-!
# Loops that are complete on their own line

A loop whose body is opened and closed on its own line leaves the count of braces as it was, just as a
loop does whose body is still to come.  So the search for a second loop takes the next block that is
opened below for the body.

* `OpensBlock`, a block is opened below a line and is still open before another, and `opensBlock_iff`:
  this is what the search asks of a line whose braces cancel out;
* `aboutPerformance`, the issues about performance, and `JavaScript.aboutPerformance_ne_nil_iff`: where
  a line has any;
* `JavaScript.completeLoop`, a loop on one line, and `JavaScript.completeLoop_flagged_iff`: when it is
  reported as nested.
-/

namespace CodeCoach.Review

open Text Pattern

/-- The issues about performance. -/
def aboutPerformance (issues : List Issue) : List Issue :=
  issues.filter fun i => i.kind == .performance

variable {lines : List Line} {line : Line} {d : Document} {n j : Nat}

/-! ### Blocks below a line -/

/-- Below the line at `n` a block is opened, and before the line at `j` it is the only one that is
open and has not been closed on the way: up to some line no more braces are opened than closed, and
from there on always more. -/
def OpensBlock (lines : List Line) (n j : Nat) : Prop :=
  balance (between lines (n + 1) j) = 1 ∧ ∃ m, n < m ∧ m < j ∧
    (∀ i, n < i → i ≤ m → balance (between lines (n + 1) i) ≤ 0) ∧
    ∀ i, m < i → i ≤ j → 0 < balance (between lines (n + 1) i)

theorem balance_between_succ (hline : lines[n]? = some line) (h : n < j) :
    balance (between lines n j) = braces line + balance (between lines (n + 1) j) := by
  obtain ⟨hn, rfl⟩ := List.getElem?_eq_some_iff.1 hline
  have hfirst : (lines.take j).drop n = lines[n] :: (lines.take j).drop (n + 1) := by
    rw [List.drop_eq_getElem_cons (by rw [List.length_take]; omega), List.getElem_take]
  rw [between, hfirst, balance_cons, between]

/-- For a line that leaves the count of braces as it is, the body is a block that is opened below. -/
theorem opensBlock_iff (hline : lines[n]? = some line) (hbraces : braces line = 0) (h : n < j) :
    OpensBlock lines n j ↔ balance (between lines n j) = 1 ∧ ¬ClosedBefore lines n j := by
  have hsame (i : Nat) (hi : n < i) :
      balance (between lines n i) = balance (between lines (n + 1) i) := by
    rw [balance_between_succ hline hi, hbraces, Int.zero_add]
  rw [OpensBlock, hsame j h]
  refine and_congr_right fun hone => ?_
  constructor
  · rintro ⟨m, -, -, hbefore, hbehind⟩ ⟨i, hni, hij, hclosed, k, hnk, hki, hopened⟩
    rw [hsame _ (by omega)] at hclosed hopened
    have hi : i + 1 ≤ m := Nat.le_of_not_lt fun hlt => by
      have := hbehind (i + 1) hlt (by omega)
      omega
    have := hbefore (k + 1) (by omega) (by omega)
    omega
  · intro hgoes
    -- The block is opened on the line before which the count is above zero for the first time.
    have hexists : ∃ k, n < k ∧ 0 < balance (between lines (n + 1) k) := ⟨j, h, by omega⟩
    obtain ⟨hk, hopened⟩ := Nat.find_spec hexists
    have hfirst : ∀ i, n < i → i < Nat.find hexists → balance (between lines (n + 1) i) ≤ 0 :=
      fun i hi hlt => Int.not_lt.1 fun hpos => Nat.find_min hexists hlt ⟨hi, hpos⟩
    have hle : Nat.find hexists ≤ j := Nat.find_min' hexists ⟨h, by omega⟩
    generalize Nat.find hexists = k at *
    have hne : k ≠ n + 1 := by
      rintro rfl
      have hnil : between lines (n + 1) (n + 1) = [] := by simp [between]
      rw [hnil, balance_nil] at hopened
      cases hopened
    refine ⟨k - 1, by omega, by omega, fun i hi him => hfirst i hi (by omega), ?_⟩
    intro i hi hij
    refine Int.not_le.1 fun hclosed => hgoes ⟨i - 1, by omega, by omega, ?_, k - 1, by omega, ?_, ?_⟩
    · rwa [Nat.sub_add_cancel (by omega), hsame i (by omega)]
    · rcases Nat.eq_or_lt_of_le (show k ≤ i by omega) with rfl | hlt
      · exact absurd hopened (Int.not_lt.2 hclosed)
      · omega
    · rwa [Nat.sub_add_cancel (by omega), hsame k hk]

namespace JavaScript

/-! ### Issues about performance -/

/-- The lines of a document with their string literals blanked out. -/
def codeLines (d : Document) : List Line := (linesOf d.text).map mask

theorem isSome_nestedLoop (hline : lines[n]? = some line) :
    (nestedLoop (mask line) (lines.drop (n + 1))).isSome =
      isNestedLoopStart forLoop.occursIn (lines.map mask) n := by
  obtain ⟨hn, rfl⟩ := List.getElem?_eq_some_iff.1 hline
  have hdrop : (lines.map mask).drop n =
      mask lines[n] :: (lines.drop (n + 1)).map mask := by
    rw [← List.map_drop, List.drop_eq_getElem_cons hn, List.map_cons]
  have hwindow : nestedAt forLoop.occursIn (mask lines[n])
      (((lines.drop (n + 1)).take lookahead).map mask) =
        nestedAt forLoop.occursIn (mask lines[n]) ((lines.drop (n + 1)).map mask) := by
    rw [nestedAt, nestedAt, List.map_take, List.take_take, Nat.min_self]
  rw [isNestedLoopStart, hdrop, nestedLoop, hwindow]
  show (if (forLoop.occursIn (mask lines[n]) && _) = true then _ else none).isSome = nestedAt ..
  cases hnested : nestedAt forLoop.occursIn (mask lines[n]) ((lines.drop (n + 1)).map mask) with
  | false => rw [Bool.and_false, if_neg Bool.false_ne_true, Option.isSome_none]
  | true =>
    have hopens := (Bool.and_eq_true_iff.1 hnested).1
    rw [hopens, Bool.and_true, if_pos rfl, Option.isSome_some]

/-- A line of code has issues about performance just where a nested loop starts. -/
theorem aboutPerformance_ne_nil_iff (hfamily : Family.ofTag d.languageTag = .javaScript)
    (hline : (linesOf d.text)[n]? = some line) (hcomment : isComment (mask line) = false) :
    aboutPerformance (onLine (n + 1) (ofDocument d)) ≠ [] ↔
      isNestedLoopStart forLoop.occursIn (codeLines d) n := by
  have hissues : aboutPerformance (onLine (n + 1) (ofDocument d)) =
      (nestedLoop (mask line) ((linesOf d.text).drop (n + 1))).toList.map (·.at d.path n line) :=
    (filter_onLine_ofDocument hfamily hline hcomment fun kind _ => kind == .performance).trans
      (congrArg _ (List.append_nil _))
  rw [hissues, codeLines, ← isSome_nestedLoop hline]
  cases nestedLoop (mask line) ((linesOf d.text).drop (n + 1)) <;> simp

/-! ### Complete loops -/

/-- A loop with a header and a body on one line. -/
def completeLoop (header body : List Char) : Line :=
  "for (".toList ++ (header ++ (") \x7b ".toList ++ (body ++ " \x7d".toList)))

variable {indent header body : List Char}

theorem completeLoop_eq (header body : List Char) : completeLoop header body =
    "for (".toList ++ (header ++ (") \x7b ".toList ++ (body ++ " \x7d".toList))) := rfl

theorem mem_completeLoop {c : Char} (h : c ∈ completeLoop header body) :
    c ∈ "for () \x7b\x7d".toList ∨ c ∈ header ++ body := by
  have hfront : ∀ c ∈ "for (".toList, c ∈ "for () \x7b\x7d".toList :=
    List.all_iff_forall_prop.1 (by decide)
  have hmiddle : ∀ c ∈ ") \x7b ".toList, c ∈ "for () \x7b\x7d".toList :=
    List.all_iff_forall_prop.1 (by decide)
  have hback : ∀ c ∈ " \x7d".toList, c ∈ "for () \x7b\x7d".toList :=
    List.all_iff_forall_prop.1 (by decide)
  simp only [completeLoop_eq, List.mem_append] at h ⊢
  rcases h with h | h | h | h | h
  · exact .inl (hfront c h)
  · exact .inr (.inl h)
  · exact .inl (hmiddle c h)
  · exact .inr (.inr h)
  · exact .inl (hback c h)

theorem mask_completeLoop (hindent : ∀ c ∈ indent, isBlank c)
    (h : ∀ c ∈ header ++ body, isQuote c = false) :
    mask (indent ++ completeLoop header body) = indent ++ completeLoop header body := by
  have hfixed : ∀ c ∈ "for () \x7b\x7d".toList, isQuote c = false :=
    List.all_iff_forall_prop.1 (by decide)
  have hall : ∀ c ∈ indent ++ completeLoop header body, isQuote c = false := fun c hc =>
    (List.mem_append.1 hc).elim
      (fun hc => Bool.eq_false_iff.2 fun hq => absurd (hindent c hc) (by simp [isBlank_of_isQuote hq]))
      fun hc => (mem_completeLoop hc).elim (hfixed c) (h c)
  have hmask := mask_append hall []
  rwa [List.append_nil, show mask [] = [] from rfl, List.append_nil] at hmask

/-- The braces of a complete loop cancel out. -/
theorem braces_completeLoop (hindent : ∀ c ∈ indent, isBlank c)
    (h : ∀ c ∈ header ++ body, c ≠ '\x7b' ∧ c ≠ '\x7d') :
    braces (indent ++ completeLoop header body) = 0 := by
  have hnone {c : Char} (hblank : isBlank c = false) (hmem : c ∉ header ++ body) :
      indent.count c = 0 ∧ header.count c = 0 ∧ body.count c = 0 := by
    have hcount := List.count_eq_zero_of_not_mem hmem
    rw [List.count_append] at hcount
    refine ⟨List.count_eq_zero_of_not_mem fun hc => ?_, by omega, by omega⟩
    exact absurd (hindent c hc) (by simp [hblank])
  have hopen := hnone (c := '\x7b') (by decide) fun hmem => (h _ hmem).1 rfl
  have hclose := hnone (c := '\x7d') (by decide) fun hmem => (h _ hmem).2 rfl
  have hfront : "for (".toList.count '\x7b' = 0 ∧ "for (".toList.count '\x7d' = 0 := by decide
  have hmiddle : ") \x7b ".toList.count '\x7b' = 1 ∧ ") \x7b ".toList.count '\x7d' = 0 := by decide
  have hback : " \x7d".toList.count '\x7b' = 0 ∧ " \x7d".toList.count '\x7d' = 1 := by decide
  rw [braces_eq, completeLoop_eq]
  simp only [List.count_append]
  omega

theorem exists_completeLoop_eq (header body : List Char) :
    ∃ rest, completeLoop header body = 'f' :: "or".toList ++ ([' '] ++ '(' :: rest) := ⟨_, rfl⟩

theorem isComment_completeLoop (hindent : ∀ c ∈ indent, isBlank c) :
    isComment (indent ++ completeLoop header body) = false := by
  obtain ⟨rest, hrest⟩ := exists_completeLoop_eq header body
  have hblank : trimStart indent = [] := List.dropWhile_eq_nil_iff.2 hindent
  rw [isComment, hrest, List.cons_append, trimStart_append_cons (by decide), hblank]
  rfl

theorem occursIn_completeLoop (hindent : ∀ c ∈ indent, isBlank c) :
    forLoop.occursIn (indent ++ completeLoop header body) := by
  obtain ⟨rest, hrest⟩ := exists_completeLoop_eq header body
  have hbefore : indent.getLast?.any isWord = false := by
    cases hlast : indent.getLast? with
    | none => rfl
    | some c => exact isWord_of_isBlank (hindent c (List.mem_of_getLast? hlast))
  have hedge : indent.getLast?.any isWord ≠ (completeLoop header body).head?.any isWord := by
    rw [hbefore]
    show false ≠ isWord 'f'
    decide
  have hblank : ∀ c ∈ [' '], isBlank c := List.forall_mem_singleton.2 rfl
  refine (occursIn_edge_iff (by decide)).2 ⟨indent, completeLoop header body, rfl, hedge, ?_⟩
  exact leads_word_cons_iff.2 ⟨_, hrest, leads_many_cons_iff.2 ⟨[' '], _, rfl, hblank,
    leads_char_cons_iff.2 ⟨rest, rfl, leads_nil⟩⟩⟩

/-- **A complete loop is followed by the search as if its body were still to come.** A loop that is
complete on its own line is reported as nested just when a block that is opened below it, within twenty
lines, holds a loop directly. -/
theorem completeLoop_flagged_iff (hfamily : Family.ofTag d.languageTag = .javaScript)
    (hindent : ∀ c ∈ indent, isBlank c) (hbraces : ∀ c ∈ header ++ body, c ≠ '\x7b' ∧ c ≠ '\x7d')
    (hquotes : ∀ c ∈ header ++ body, isQuote c = false)
    (hline : (linesOf d.text)[n]? = some (indent ++ completeLoop header body)) :
    aboutPerformance (onLine (n + 1) (ofDocument d)) ≠ [] ↔ ∃ j, n < j ∧ j ≤ n + 20 ∧
      (codeLines d)[j]?.any forLoop.occursIn ∧ OpensBlock (codeLines d) n j := by
  have hmask := mask_completeLoop hindent hquotes
  have hcode : (codeLines d)[n]? = some (indent ++ completeLoop header body) := by
    rw [codeLines, List.getElem?_map, hline, Option.map_some, hmask]
  obtain ⟨hn, hfirst⟩ := List.getElem?_eq_some_iff.1 hcode
  have hrest : (codeLines d).drop n =
      (indent ++ completeLoop header body) :: (codeLines d).drop (n + 1) := by
    rw [List.drop_eq_getElem_cons hn, hfirst]
  have hblock {j : Nat} (hj : n < j) := opensBlock_iff hcode (braces_completeLoop hindent hbraces) hj
  have hcomment : isComment (mask (indent ++ completeLoop header body)) = false := by
    rw [hmask]
    exact isComment_completeLoop hindent
  rw [aboutPerformance_ne_nil_iff hfamily hline hcomment, isNestedLoopStart_iff hrest]
  constructor
  · rintro ⟨-, k, hk, hinner, hdirect⟩
    have hk : k < 20 := hk
    refine ⟨n + (k + 1), by omega, by omega, ?_, (hblock (by omega)).2 hdirect⟩
    rwa [List.getElem?_drop, Nat.add_assoc, Nat.add_comm 1 k] at hinner
  · rintro ⟨j, hj, hlast, hinner, hdirect⟩
    obtain ⟨k, rfl⟩ := Nat.exists_eq_add_of_lt hj
    refine ⟨occursIn_completeLoop hindent, k, show k < 20 by omega, ?_, (hblock hj).1 hdirect⟩
    rwa [List.getElem?_drop, Nat.add_assoc, Nat.add_comm 1 k]

/-- Complete loops before a condition and below it. -/
def loopsAround : Document :=
  ⟨"for (a) \x7b f \x7d\nfor (b) \x7b g \x7d\nif (x) \x7b\n  y;\n  for (c) \x7b h \x7d\n\x7d", "ts", "a.ts"⟩

theorem completeLoop_flagged_loopsAround :
    aboutPerformance (onLine 1 (ofDocument loopsAround)) ≠ [] ∧
      aboutPerformance (onLine 5 (ofDocument loopsAround)) = [] := by
  have hfamily : Family.ofTag loopsAround.languageTag = .javaScript := by decide +kernel
  have hfirst : (linesOf loopsAround.text)[0]? =
      some ([] ++ completeLoop "a".toList "f".toList) := by
    decide +kernel
  have hlast : (linesOf loopsAround.text)[4]? =
      some ("  ".toList ++ completeLoop "c".toList "h".toList) := by
    decide +kernel
  have habove := completeLoop_flagged_iff hfamily (by simp) (List.all_iff_forall_prop.1 (by decide))
    (List.all_iff_forall_prop.1 (by decide)) hfirst
  have hbelow := completeLoop_flagged_iff hfamily (List.all_iff_forall_prop.1 (by decide))
    (List.all_iff_forall_prop.1 (by decide)) (List.all_iff_forall_prop.1 (by decide)) hlast
  have hcode : codeLines loopsAround = ["for (a) \x7b f \x7d".toList, "for (b) \x7b g \x7d".toList,
      "if (x) \x7b".toList, "  y;".toList, "  for (c) \x7b h \x7d".toList, "\x7d".toList] := by
    decide +kernel
  rw [hcode] at habove hbelow
  refine ⟨habove.2 ⟨4, by decide, by decide, by decide +kernel, by decide, 2, by decide, by decide,
    fun i hi hle => ?_, fun i hi hle => ?_⟩, not_ne_iff.1 fun h => ?_⟩
  · obtain rfl | rfl : i = 1 ∨ i = 2 := by omega
    · decide
    · decide
  · obtain rfl | rfl : i = 3 ∨ i = 4 := by omega
    · decide
    · decide
  · -- The only line below opens no loop.
    obtain ⟨j, hj, -, hopens, -⟩ := hbelow.1 h
    obtain rfl | hend : j = 5 ∨ 6 ≤ j := by omega
    · exact absurd hopens (by decide +kernel)
    · rw [List.getElem?_eq_none hend] at hopens
      cases hopens

/-- A complete loop before a condition on a loop. -/
def loopBehindCondition : Document :=
  ⟨"for (const x of xs) \x7b use \x7d\nif (ready) \x7b\n  for (const y of ys) \x7b use \x7d\n\x7d", "javascript",
    "src/app.js"⟩

theorem completeLoop_flagged_loopBehindCondition :
    Family.ofTag loopBehindCondition.languageTag = .javaScript ∧
      (linesOf loopBehindCondition.text)[0]? =
        some (completeLoop "const x of xs".toList "use".toList) ∧
      (∀ c ∈ "const x of xs".toList ++ "use".toList,
        c ∉ "\x7b\x7d()\n\r".toList ∧ isQuote c = false) ∧
      aboutPerformance (onLine 1 (ofDocument loopBehindCondition)) ≠ [] :=
  ⟨by decide +kernel, by decide +kernel, List.all_iff_forall_prop.1 (by decide), by decide +kernel⟩

end JavaScript

end CodeCoach.Review
