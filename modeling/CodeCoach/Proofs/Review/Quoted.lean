import CodeCoach.Proofs.Review.Literal
import CodeCoach.Proofs.Review.Order
import CodeCoach.Proofs.Text.Line

/-!
# Quoted text says nothing to the rules for JavaScript

All the rules but the one for concatenated queries read the masked lines of a document.  So the text
of a string literal may be exchanged for another of as many bytes, and they say what they said: only
the snippets and the columns of that line may differ.

* `Issue.faded`, an issue without its snippet and column, and `besides`, the issues of a document
  without what the text of one line may change;
* `Rule.heard_exchange`, what the rules say about a line with the same mask;
* `ofDocument_exchange`, the issues of a document after the exchange.
-/

namespace CodeCoach

/-- The issue without its snippet, and without the value of its column. -/
def Issue.faded (i : Issue) : Issue :=
  { i with snippet := "", location := { i.location with column := i.location.column.map fun _ => 0 } }

namespace Review

open Text

/-- The finding without its snippet, and without the value of its column. -/
def Finding.faded (f : Finding) : Finding :=
  { f with snippet := none, column := f.column.map fun _ => 0 }

/-- The issues besides those about concatenated queries on a line, of which line neither the snippets
nor the columns are looked at. -/
def besides (n : Nat) (issues : List Issue) : List Issue :=
  (issues.filter fun i => !(i.location.line == n && Rule.concatenatedQuery.reports i)).map fun i =>
    if i.location.line = n then i.faded else i

/-- The findings besides those about concatenated queries, without snippets and columns. -/
def heard (fs : List Finding) : List Finding :=
  (fs.filter fun f => !Rule.concatenatedQuery.voices f).map Finding.faded

theorem heard_eq (fs : List Finding) :
    heard fs = (fs.map Finding.faded).filter fun f => !Rule.concatenatedQuery.voices f := by
  rw [List.filter_map]
  rfl

theorem besides_append (n : Nat) (a b : List Issue) :
    besides n (a ++ b) = besides n a ++ besides n b := by
  simp [besides]

/-- Where a line with other text has the same findings but for their columns, its issues are the same
but for their snippets and columns. -/
theorem besides_map_at {fs gs : List Finding} (h : heard fs = heard gs) (path : String)
    (index : Nat) (line line' : Line) :
    besides (index + 1) (fs.map (·.at path index line)) =
      besides (index + 1) (gs.map (·.at path index line')) := by
  have hat (line : Line) (fs : List Finding) :
      besides (index + 1) (fs.map (·.at path index line)) =
        (heard fs).map fun f => (f.at path index []).faded := by
    simp only [besides, heard, List.filter_map, List.map_map]
    have hkept : ((fun i : Issue => !(i.location.line == index + 1 &&
        Rule.concatenatedQuery.reports i)) ∘ fun f : Finding => f.at path index line) =
          fun f => !Rule.concatenatedQuery.voices f := by
      funext f
      have hhere : (f.at path index line).location.line = index + 1 := rfl
      simp [hhere]
    rw [hkept]
    refine List.map_congr_left fun f _ => ?_
    simp [Finding.at, Finding.faded, Issue.faded, Function.comp_def]
  rw [hat, hat, h]

/-! ### The rules -/

theorem heard_toList_congr {o o' : Option Finding} (h : o'.map Finding.faded = o.map Finding.faded) :
    heard o'.toList = heard o.toList := by
  rw [heard_eq, heard_eq, ← Option.toList_map, ← Option.toList_map, h]

theorem heard_concatenatedQuery (usesAsync testFile : Bool) (line : Line) (rest : List Line) :
    heard (Rule.concatenatedQuery.findings usesAsync testFile line rest) = [] := by
  rw [heard, List.filter_eq_nil_iff.2, List.map_nil]
  intro f hf
  simp [(Rule.of_mem_findings hf).1]

section Rules

variable {line line' : Line} {rest rest' : List Line}

/-- A rule says about two lines with one mask the same, but for the columns. -/
theorem Rule.heard_exchange {r : Rule} (hr : r ∈ Family.javaScript.ruleOrder)
    (hline : mask line' = mask line) (usesAsync testFile : Bool) (rest : List Line) :
    heard (r.findings usesAsync testFile line' rest) =
      heard (r.findings usesAsync testFile line rest) := by
  cases r with
  | concatenatedQuery => rw [heard_concatenatedQuery, heard_concatenatedQuery]
  | unguardedAccess =>
    refine heard_toList_congr ?_
    rw [hline, JavaScript.unguardedAccess, JavaScript.unguardedAccess, Option.map_map,
      Option.map_map]
    rfl
  | dangerousSink =>
    refine heard_toList_congr ?_
    rw [hline, JavaScript.dangerousSink, JavaScript.dangerousSink, List.map_findSome?,
      List.map_findSome?]
    congr 1
    funext ⟨pattern, sink, remedy⟩
    simp only [Function.comp_apply, Option.map_map]
    rfl
  | debugLogging =>
    refine heard_toList_congr ?_
    rw [hline, JavaScript.debugLogging, JavaScript.debugLogging]
    split
    · rfl
    · rw [Option.map_map, Option.map_map]
      rfl
  | nestedLoop => rw [findings, findings, hline]
  | promiseChain => rw [findings, findings, hline]
  | _ => simp [Family.ruleOrder] at hr

theorem heard_ruleSet_exchange (hline : mask line' = mask line) (usesAsync testFile : Bool)
    (rest : List Line) :
    heard (Family.javaScript.ruleSet usesAsync testFile line' rest) =
      heard (Family.javaScript.ruleSet usesAsync testFile line rest) := by
  have hskips : Family.javaScript.skips line' = Family.javaScript.skips line := by
    rw [Family.skips, Family.skips, hline]
  rw [Family.ruleSet, Family.ruleSet, hskips]
  split
  · rfl
  · simp only [heard, List.filter_flatMap, List.map_flatMap]
    exact List.flatMap_congr fun r hr => Rule.heard_exchange hr hline usesAsync testFile rest

/-- Of the lines that follow, only the masks are read. -/
theorem ruleSet_congr_rest (hrest : rest'.map mask = rest.map mask) (usesAsync testFile : Bool)
    (line : Line) : Family.javaScript.ruleSet usesAsync testFile line rest' =
      Family.javaScript.ruleSet usesAsync testFile line rest := by
  have hnested (code : Line) : JavaScript.nestedLoop code rest' = JavaScript.nestedLoop code rest := by
    rw [JavaScript.nestedLoop, JavaScript.nestedLoop, List.map_take, List.map_take, hrest]
  simp only [Family.ruleSet, Family.ruleOrder, List.flatMap_cons, List.flatMap_nil,
    Rule.findings, hnested]

end Rules

/-! ### Documents -/

theorem besides_overLines_exchange {line line' : Line} (hline : mask line' = mask line)
    (usesAsync testFile : Bool) (path : String) (above below : List Line) (index : Nat) :
    besides (index + above.length + 1) (overLines (Family.javaScript.ruleSet usesAsync testFile)
        path index (above ++ line' :: below)) =
      besides (index + above.length + 1) (overLines (Family.javaScript.ruleSet usesAsync testFile)
        path index (above ++ line :: below)) := by
  induction above generalizing index with
  | nil =>
    rw [List.nil_append, List.nil_append, overLines_cons, overLines_cons, besides_append,
      besides_append, List.length_nil, Nat.add_zero,
      besides_map_at (heard_ruleSet_exchange hline usesAsync testFile below) path index line' line]
  | cons earlier above ih =>
    have hrest : (above ++ line' :: below).map mask = (above ++ line :: below).map mask := by
      simp [hline]
    have hindex : index + (earlier :: above).length = index + 1 + above.length := by
      rw [List.length_cons]
      omega
    rw [List.cons_append, List.cons_append, overLines_cons, overLines_cons, besides_append,
      besides_append, ruleSet_congr_rest hrest, hindex, ih]

theorem usesAsync_congr {ls ls' : List Line} (h : ls'.map mask = ls.map mask) :
    JavaScript.usesAsync ls' = JavaScript.usesAsync ls := by
  have hany (ls : List Line) :
      JavaScript.usesAsync ls = (ls.map mask).any JavaScript.asyncKeyword.occursIn := by
    rw [JavaScript.usesAsync, List.any_map]
    rfl
  rw [hany, hany, h]

/-- The text of a string literal in a document may be exchanged for another of as many bytes. -/
theorem ofDocument_exchange {d : Document} (hfamily : Family.ofTag d.languageTag = .javaScript)
    {before after old new : List Char} {q : Char}
    (htext : d.text.toList = before ++ (quoted q old ++ after))
    {line : Line} (hline : (linesOf d.text)[before.count '\n']? = some line)
    (hliteral : (lastLine before, quoted q old) ∈ literals line)
    (hnew : ∀ c ∈ new, isQuote c = false ∧ c ≠ backslash ∧ c ≠ '\n')
    (hbytes : byteLength new = byteLength old) :
    besides (before.count '\n' + 1)
        (ofDocument { d with text := String.ofList (before ++ (quoted q new ++ after)) }) =
      besides (before.count '\n' + 1) (ofDocument d) := by
  have hq := isQuote_of_mem_literals hliteral
  have hfeed : '\n' ∉ line := not_mem_of_mem_linesOf (List.mem_of_getElem? hline)
  obtain ⟨rest, rfl, hmask⟩ := mask_exchange hfeed hliteral hnew hbytes
  have hold : '\n' ∉ quoted q old := fun hmem => hfeed (by simp [hmem])
  have hfresh : '\n' ∉ quoted q new := by
    simpa [quoted, (ne_newline_of_isQuote hq).symm] using fun hmem => (hnew _ hmem).2.2 rfl
  -- Both documents are cut into the same lines around the one with the literal.
  obtain ⟨above, rest', below, hlength, hlines⟩ := exists_lines_around before after
  have hcut (body : List Char) (hbody : '\n' ∉ quoted q body) :=
    hlines (quoted q body) hbody (by simp [quoted]) (by simpa using ne_return_of_isQuote hq)
  have hd : linesOf d.text = above ++ (lastLine before ++ (quoted q old ++ rest')) :: below := by
    rw [linesOf, htext, hcut old hold]
  obtain rfl : rest' = rest := by
    rw [hd, ← hlength, List.getElem?_append_right (Nat.le_refl _), Nat.sub_self] at hline
    simpa using hline
  have he : linesOf (String.ofList (before ++ (quoted q new ++ after))) =
      above ++ (lastLine before ++ (quoted q new ++ rest')) :: below := by
    rw [linesOf, String.toList_ofList, hcut new hfresh]
  have hmasks : (linesOf (String.ofList (before ++ (quoted q new ++ after)))).map mask =
      (linesOf d.text).map mask := by
    rw [he, hd]
    simp [hmask]
  have hissues := besides_overLines_exchange hmask (JavaScript.usesAsync (linesOf d.text))
    (JavaScript.isTestPath d.path) d.path above below 0
  rw [← hd, ← he, Nat.zero_add, hlength] at hissues
  rw [ofDocument, ofDocument, hfamily, Family.issues_eq, Family.issues_eq,
    usesAsync_congr hmasks]
  exact hissues

/-- A chain of accesses beside a text that looks like one. -/
def besideChain (body : String) : String :=
  "let q = p\nf(a.b.c, '" ++ body ++ "') // don't\n"

theorem ofDocument_exchange_besideChain :
    (besides 2 (ofDocument ⟨besideChain "x.y.z", "js", "a.js"⟩)).length = 1 ∧
      besides 2 (ofDocument ⟨besideChain "eval(", "js", "a.js"⟩) =
        besides 2 (ofDocument ⟨besideChain "x.y.z", "js", "a.js"⟩) := by
  have hnew : ∀ c ∈ "eval(".toList, isQuote c = false ∧ c ≠ backslash ∧ c ≠ '\n' := by
    have hall : ("eval(".toList.all fun c => !isQuote c && (c != backslash && c != '\n')) := by
      decide +kernel
    simpa only [List.all_eq_true, Bool.and_eq_true, Bool.not_eq_true', bne_iff_ne] using hall
  have hexchange := @ofDocument_exchange ⟨besideChain "x.y.z", "js", "a.js"⟩ (by decide +kernel)
    "let q = p\nf(a.b.c, ".toList ") // don't\n".toList "x.y.z".toList "eval(".toList singleQuote
    (by decide +kernel) "f(a.b.c, 'x.y.z') // don't".toList (by decide +kernel)
    (by decide +kernel) hnew (by decide +kernel)
  refine ⟨by decide +kernel, ?_⟩
  exact hexchange

end Review

end CodeCoach
