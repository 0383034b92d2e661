import CodeCoach.Proofs.Review.Rule
import CodeCoach.Proofs.Text.Line

/-!
# Line ends make no difference

A text without carriage returns has the same lines whether line feeds end them or carriage returns
with line feeds, and a line feed at its end adds at most an empty line.  No rule finds anything on an
empty line, and none that looks at the lines below finds more or less for an empty one at the end.

* `Text.lines_replaceAll`, `Text.lines_concat_newline`, which say so of the lines;
* `Family.ruleSet_concat_nil`: what is found on a line is the same with an empty line at the end;
* `blind_to_terminators`: the issues of a document depend neither on how its lines end nor on whether
  its last line does.
-/

namespace CodeCoach

namespace Text

variable {unfinished cs : List Char}

theorem dropReturn_of_not_mem {l : Line} (h : '\r' ∉ l) : dropReturn l = l :=
  dropReturn_of_getLast?_ne fun hlast => h (List.mem_of_getLast? hlast)

theorem cutLines_replaceAll (hline : '\r' ∉ unfinished) (hcs : '\r' ∉ cs) :
    cutLines unfinished (replaceAll '\n' ['\r', '\n'] cs) = cutLines unfinished cs := by
  induction cs generalizing unfinished with
  | nil => rfl
  | cons c cs ih =>
    obtain ⟨hc, hrest⟩ : '\r' ≠ c ∧ '\r' ∉ cs := by simpa using hcs
    have hcons : replaceAll '\n' ['\r', '\n'] (c :: cs) =
        (if c == '\n' then ['\r', '\n'] else [c]) ++ replaceAll '\n' ['\r', '\n'] cs := rfl
    by_cases hfeed : c = '\n'
    · -- The carriage return goes with the line feed.
      subst hfeed
      have hreturn : cutLines unfinished ('\r' :: '\n' :: replaceAll '\n' ['\r', '\n'] cs) =
          dropReturn (unfinished.reverse ++ ['\r']) ::
            cutLines [] (replaceAll '\n' ['\r', '\n'] cs) := by
        rw [cutLines_cons (by decide), cutLines_newline, List.reverse_cons]
      have hdrop : dropReturn unfinished.reverse = unfinished.reverse :=
        dropReturn_of_not_mem (by simpa using hline)
      rw [hcons, cutLines_newline, hdrop, ← ih List.not_mem_nil hrest]
      exact hreturn.trans (by rw [dropReturn_concat])
    · rw [hcons, if_neg (by simpa using hfeed), List.singleton_append, cutLines_cons hfeed,
        cutLines_cons hfeed, ih (by simp [hc, hline]) hrest]

/-- Carriage returns before the line feeds belong to the ends of the lines. -/
theorem lines_replaceAll (h : '\r' ∉ cs) : lines (replaceAll '\n' ['\r', '\n'] cs) = lines cs :=
  cutLines_replaceAll List.not_mem_nil h

theorem cutLines_concat_newline (hline : '\r' ∉ unfinished) (hcs : '\r' ∉ cs) :
    cutLines unfinished (cs ++ ['\n']) = cutLines unfinished cs ∨
      cutLines unfinished (cs ++ ['\n']) = cutLines unfinished cs ++ [[]] := by
  induction cs generalizing unfinished with
  | nil =>
    rw [List.nil_append, cutLines_newline, dropReturn_of_not_mem (by simpa using hline)]
    cases unfinished with
    | nil => exact .inr rfl
    | cons c rest => exact .inl rfl
  | cons c cs ih =>
    obtain ⟨hc, hrest⟩ : '\r' ≠ c ∧ '\r' ∉ cs := by simpa using hcs
    rw [List.cons_append]
    by_cases hfeed : c = '\n'
    · subst hfeed
      rw [cutLines_newline, cutLines_newline]
      exact (ih List.not_mem_nil hrest).imp (congrArg _) (congrArg _)
    · rw [cutLines_cons hfeed, cutLines_cons hfeed]
      exact ih (by simp [hc, hline]) hrest

/-- A line feed at the end ends the last line, or adds an empty one where there is none under
way. -/
theorem lines_concat_newline (h : '\r' ∉ cs) :
    lines (cs ++ ['\n']) = lines cs ∨ lines (cs ++ ['\n']) = lines cs ++ [[]] :=
  cutLines_concat_newline List.not_mem_nil h

end Text

namespace Review

open Text

/-! ### An empty line at the end -/

/-- An empty line neither opens a loop nor closes a brace. -/
theorem opensWithin_concat_nil {opens : Line → Bool} (hopens : opens [] = false) (depth : Int)
    (opened : Bool) (lines : List Line) :
    opensWithin opens depth opened (lines ++ [[]]) = opensWithin opens depth opened lines := by
  induction lines generalizing depth opened with
  | nil => simp [opensWithin, hopens]
  | cons line lines ih => simp only [List.cons_append, opensWithin, ih]

theorem take_concat_nil (lines : List Line) (n : Nat) :
    (lines ++ [[]]).take n = lines.take n ∨ (lines ++ [[]]).take n = lines.take n ++ [[]] := by
  rw [List.take_append]
  cases n - lines.length with
  | zero => exact .inl (List.append_nil _)
  | succ k => exact .inr (by simp)

theorem nestedAt_concat_nil {opens : Line → Bool} (hopens : opens [] = false) (line : Line)
    (rest : List Line) : nestedAt opens line (rest ++ [[]]) = nestedAt opens line rest := by
  unfold nestedAt
  rcases take_concat_nil rest lookahead with h | h
  · rw [h]
  · rw [h, opensWithin_concat_nil hopens]

theorem JavaScript.nestedLoop_concat_nil (code : Line) (rest : List Line) :
    nestedLoop code (rest ++ [[]]) = nestedLoop code rest := by
  unfold nestedLoop
  rcases take_concat_nil rest lookahead with h | h
  · rw [h]
  · rw [h, List.map_append]
    exact congrArg (fun nested => if forLoop.occursIn code && nested then _ else _)
      (nestedAt_concat_nil (by decide) code _)

theorem Markup.hasVisibleText_concat_nil (after : List Char) (rest : List Line) :
    hasVisibleText after (rest ++ [[]]) = hasVisibleText after rest := by
  unfold hasVisibleText buttonContent
  cases rest with
  | nil => simp [show upToClose [] = none by decide]
  | cons next rest => rfl

theorem Rule.findings_concat_nil (r : Rule) (usesAsync testFile : Bool) (line : Line)
    (rest : List Line) :
    r.findings usesAsync testFile line (rest ++ [[]]) = r.findings usesAsync testFile line rest := by
  cases r with
  | nestedLoop =>
    rw [findings, findings, JavaScript.nestedLoop_concat_nil]
  | namelessButton =>
    have hbutton : Markup.namelessButton line (rest ++ [[]]) = Markup.namelessButton line rest := by
      funext m
      rw [Markup.namelessButton, Markup.namelessButton, Markup.hasVisibleText_concat_nil]
    rw [findings, findings, hbutton]
  | _ => rfl

theorem Family.ruleSet_concat_nil (family : Family) (usesAsync testFile : Bool) (line : Line)
    (rest : List Line) :
    family.ruleSet usesAsync testFile line (rest ++ [[]]) =
      family.ruleSet usesAsync testFile line rest := by
  unfold ruleSet
  rw [List.flatMap_congr fun r _ => Rule.findings_concat_nil r usesAsync testFile line rest]

/-- Nothing is found on an empty line. -/
theorem Family.ruleSet_nil (family : Family) (usesAsync testFile : Bool) :
    family.ruleSet usesAsync testFile [] [] = [] := by
  cases family <;> cases usesAsync <;> cases testFile <;> decide +kernel

theorem overLines_concat_nil {rules : RuleSet} (hnil : rules [] [] = [])
    (hrest : ∀ line rest, rules line (rest ++ [[]]) = rules line rest) (path : String) (index : Nat)
    (lines : List Line) :
    overLines rules path index (lines ++ [[]]) = overLines rules path index lines := by
  induction lines generalizing index with
  | nil => simp [overLines, hnil]
  | cons line lines ih => rw [List.cons_append, overLines_cons, overLines_cons, hrest, ih]

theorem JavaScript.usesAsync_concat_nil (lines : List Line) :
    usesAsync (lines ++ [[]]) = usesAsync lines := by
  simp [usesAsync, show asyncKeyword.occursIn (mask []) = false by decide]

/-- An empty line at the end of a document has no issues and changes none. -/
theorem Family.issues_concat_nil (family : Family) (path : String) (lines : List Line) :
    family.issues path (lines ++ [[]]) = family.issues path lines := by
  rw [issues_eq, issues_eq, JavaScript.usesAsync_concat_nil]
  exact overLines_concat_nil (family.ruleSet_nil _ _) (family.ruleSet_concat_nil _ _) path 0 lines

/-! ### Documents -/

/-- **A review is blind to how lines end.** A document without carriage returns, of whatever
language and path, has the same issues with a carriage return before each line feed, and with a line
feed behind its text. -/
theorem blind_to_terminators (d : Document) (h : '\r' ∉ d.text.toList) :
    ofDocument { d with text := String.ofList (replaceAll '\n' ['\r', '\n'] d.text.toList) } =
      ofDocument d ∧
    ofDocument { d with text := d.text ++ "\n" } = ofDocument d := by
  constructor
  · unfold ofDocument linesOf
    simp only [String.toList_ofList, lines_replaceAll h]
  · have htext : (d.text ++ "\n").toList = d.text.toList ++ ['\n'] := String.toList_append
    unfold ofDocument linesOf
    simp only [htext]
    rcases lines_concat_newline h with hlines | hlines
    · rw [hlines]
    · rw [hlines, Family.issues_concat_nil]

/-- The last line opens a button, whose text would be on the next one. -/
theorem blind_to_terminators_openButton :
    let d : Document := ⟨"<ul>\n<button>\n", "html", "a.html"⟩
    (ofDocument d).length = 1 ∧
      ofDocument { d with text := "<ul>\r\n<button>\r\n" } = ofDocument d ∧
      ofDocument { d with text := "<ul>\n<button>\n\n" } = ofDocument d := by
  intro d
  obtain ⟨hreturns, hfeed⟩ := blind_to_terminators d (by decide)
  have htext : String.ofList (replaceAll '\n' ['\r', '\n'] d.text.toList) =
      "<ul>\r\n<button>\r\n" := by decide
  rw [htext] at hreturns
  exact ⟨by decide +kernel, hreturns, hfeed⟩

end Review

end CodeCoach
