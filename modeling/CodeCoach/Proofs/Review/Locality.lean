import CodeCoach.Proofs.Review.Order

/-!
# The issues of a line depend on its surroundings alone

What is found on a line depends on the line and on a few lines after it: how many is the reach of the
family.  Of the rest of a document only one thing matters, and to JavaScript alone: whether it says
`async` at all.

* `Family.reach`, `SaysAsync`, `JavaScript.usesAsync_iff`;
* `Rule.findings_congr`: a rule reads no further than the reach of its family;
* `issues_of_window`: where two documents agree on a line and on what is in reach, they have the
  same issues on it.
-/

namespace CodeCoach

/-- The issue on another line. -/
def Issue.onto (n : Nat) (i : Issue) : Issue := { i with location := { i.location with line := n } }

namespace Review

open Text Pattern

/-- The number of following lines that what is found on a line may depend on. -/
def Family.reach : Family → Nat
  | javaScript => 20
  | markup => 1
  | python | generic => 0

/-- The word `async` stands in the line outside its string literals. -/
def SaysAsync (line : Line) : Prop :=
  ∃ before after, mask line = before ++ "async".toList ++ after ∧
    before.getLast?.any isWord = false ∧ after.head?.any isWord = false

/-! ### The word `async` -/

theorem toList_async : "async".toList = ['a', 's', 'y', 'n', 'c'] := rfl

theorem occursIn_asyncKeyword_iff {line : Line} :
    JavaScript.asyncKeyword.occursIn (mask line) ↔ SaysAsync line := by
  rw [occursIn_iff]
  constructor
  · rintro ⟨before, s, e, hs, he⟩
    obtain ⟨_, hstart, he⟩ := ends_inOrder_cons_iff.1 he
    obtain ⟨m, hword, hend⟩ := ends_inOrder_cons_iff.1 he
    rw [ends_word_iff] at hword
    cases hstart with
    | edge hstart =>
      cases hend with
      | edge hend =>
        refine ⟨before, e.rest, ?_, ?_, ?_⟩
        · rw [List.append_assoc, ← hword.rest]
          exact hs.rest
        · have hfirst : s.rest.head?.any isWord := by
            rw [hword.rest, toList_async]
            show isWord 'a'
            decide
          simpa [Place.atEdge, hfirst, hs.before, Place.start] using hstart
        · have hlast : e.before.any isWord := by
            rw [hword.before, toList_async]
            show isWord 'c'
            decide
          simpa [Place.atEdge, hlast] using hend
  · rintro ⟨before, after, hline, hbefore, hafter⟩
    let s : Place := ⟨before.getLast?, byteLength before, "async".toList ++ after⟩
    let e : Place := ⟨some 'c', byteLength before + byteLength "async".toList, after⟩
    have hword : s.Passes "async".toList e := ⟨rfl, rfl, by rw [toList_async]; rfl⟩
    have hfirst : s.atEdge := by
      simp only [Place.atEdge, s, hbefore, toList_async]
      show (false != isWord 'a') = true
      decide
    have hlast : e.atEdge := by
      simp only [Place.atEdge, e, hafter]
      decide
    refine ⟨before, s, e, ⟨?_, ?_, ?_⟩, ?_⟩
    · rw [← List.append_assoc]
      exact hline
    · simp [Place.start, s]
    · simp [Place.start, s]
    · exact ends_inOrder_cons_iff.2 ⟨s, .edge hfirst,
        ends_inOrder_cons_iff.2 ⟨e, ends_word_iff.2 hword, .edge hlast⟩⟩

theorem JavaScript.usesAsync_iff {lines : List Line} :
    usesAsync lines ↔ ∃ line ∈ lines, SaysAsync line := by
  simp only [usesAsync, List.any_eq_true, occursIn_asyncKeyword_iff]

/-! ### What a rule reads -/

theorem Markup.hasVisibleText_congr {after : List Char} {rest rest' : List Line}
    (h : rest.take 1 = rest'.take 1) : hasVisibleText after rest = hasVisibleText after rest' := by
  unfold hasVisibleText buttonContent
  cases rest <;> cases rest' <;> simp_all

/-- A rule reads no further than the reach of its family, and whether the document says `async`
matters to JavaScript alone. -/
theorem Rule.findings_congr {family : Family} {r : Rule} (hr : r ∈ family.ruleOrder)
    {usesAsync usesAsync' : Bool} (hasync : family = .javaScript → usesAsync = usesAsync')
    {rest rest' : List Line} (hrest : rest.take family.reach = rest'.take family.reach)
    (testFile : Bool) (line : Line) :
    r.findings usesAsync testFile line rest = r.findings usesAsync' testFile line rest' := by
  cases family with
  | javaScript =>
    have hnested : JavaScript.nestedLoop (mask line) rest = JavaScript.nestedLoop (mask line) rest' := by
      have hrest : rest.take lookahead = rest'.take lookahead := hrest
      rw [JavaScript.nestedLoop, JavaScript.nestedLoop, hrest]
    cases r <;> simp [Family.ruleOrder] at hr <;> simp [findings, hasync rfl, hnested]
  | markup =>
    have hbutton : Markup.namelessButton line rest = Markup.namelessButton line rest' := by
      funext m
      rw [Markup.namelessButton, Markup.namelessButton, Markup.hasVisibleText_congr hrest]
    cases r <;> simp [Family.ruleOrder] at hr <;> simp [findings, hbutton]
  | python => cases r <;> simp [Family.ruleOrder] at hr <;> rfl
  | generic => cases r <;> simp [Family.ruleOrder] at hr <;> rfl

theorem Family.ruleSet_congr {family : Family} {usesAsync usesAsync' : Bool}
    (hasync : family = .javaScript → usesAsync = usesAsync') {rest rest' : List Line}
    (hrest : rest.take family.reach = rest'.take family.reach) (testFile : Bool) (line : Line) :
    family.ruleSet usesAsync testFile line rest =
      family.ruleSet usesAsync' testFile line rest' := by
  unfold ruleSet
  rw [List.flatMap_congr fun r hr => Rule.findings_congr hr hasync hrest testFile line]

/-! ### Documents -/

/-- Where two documents agree on a line and on the lines in reach, they have the same issues on it,
whatever stands elsewhere. -/
theorem issues_of_window {d e : Document}
    (hfamily : Family.ofTag d.languageTag = Family.ofTag e.languageTag) (hpath : d.path = e.path)
    {m n : Nat}
    (hwindow : ((linesOf d.text).drop m).take ((Family.ofTag d.languageTag).reach + 1) =
      ((linesOf e.text).drop n).take ((Family.ofTag d.languageTag).reach + 1))
    (hasync : Family.ofTag d.languageTag = .javaScript →
      ((∃ line ∈ linesOf d.text, SaysAsync line) ↔ ∃ line ∈ linesOf e.text, SaysAsync line)) :
    (onLine (m + 1) (ofDocument d)).map (·.onto (n + 1)) = onLine (n + 1) (ofDocument e) := by
  cases hd : (linesOf d.text).drop m with
  | nil =>
    rw [hd, List.take_nil] at hwindow
    have he : (linesOf e.text).drop n = [] := by
      cases he : (linesOf e.text).drop n with
      | nil => rfl
      | cons line rest =>
        rw [he] at hwindow
        cases hwindow
    rw [onLine_of_drop_eq_nil hd, onLine_of_drop_eq_nil he, List.map_nil]
  | cons line rest =>
    cases he : (linesOf e.text).drop n with
    | nil =>
      rw [hd, he] at hwindow
      cases hwindow
    | cons line' rest' =>
      rw [hd, he, List.take_succ_cons, List.take_succ_cons] at hwindow
      obtain ⟨rfl, hrest⟩ := List.cons.inj hwindow
      have huses : Family.ofTag d.languageTag = .javaScript →
          JavaScript.usesAsync (linesOf d.text) = JavaScript.usesAsync (linesOf e.text) := by
        intro hjs
        rw [Bool.eq_iff_iff, JavaScript.usesAsync_iff, JavaScript.usesAsync_iff]
        exact hasync hjs
      rw [onLine_ofDocument hd, onLine_ofDocument he, ← hfamily, ← hpath, List.map_map,
        Family.ruleSet_congr huses hrest]
      rfl

/-- A document with a loop that opens another. -/
def twoLoops : Document := ⟨"for (;;) \x7b\n  for (;;) eval(x)\n\x7d\n", "js", "a.js"⟩

/-- The same loops further down. -/
def twoLoopsBelow : Document :=
  ⟨"// sums\nlet x\nfor (;;) \x7b\n  for (;;) eval(x)\n\x7d\n", "TypeScript", "a.js"⟩

theorem issues_of_twoLoops :
    onLine 1 (ofDocument twoLoops) ≠ [] ∧
      (onLine 1 (ofDocument twoLoops)).map (·.onto 3) = onLine 3 (ofDocument twoLoopsBelow) := by
  refine ⟨by decide +kernel,
    issues_of_window (d := twoLoops) (e := twoLoopsBelow) (m := 0) (n := 2) ?_ rfl ?_ ?_⟩
  · decide +kernel
  · decide +kernel
  · intro _
    have hnone : JavaScript.usesAsync (linesOf twoLoops.text) =
        JavaScript.usesAsync (linesOf twoLoopsBelow.text) := by decide +kernel
    rw [← JavaScript.usesAsync_iff, ← JavaScript.usesAsync_iff, hnone]

end Review

end CodeCoach
