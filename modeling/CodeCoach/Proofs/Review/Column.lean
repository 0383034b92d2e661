import CodeCoach.Proofs.Review.Chain
import CodeCoach.Proofs.Review.Order

/-!
# What a column points at

Seven of the rules say at which column of a line they found something.  Four of these search the mask
of the line, and the column is counted in the line itself.

* `Rule.sightings`, the matches of a rule's pattern in a line, and `Rule.PointsAt`, what stands where
  a rule points;
* `StandsAt`, what stands after some bytes of a line, and `standsAt_of_passes_mask`: what is seen in a
  mask stands in the line;
* `Rule.standsAt_of_mem_sightings`: at each match of a rule stands what the rule points at;
* `Rule.exists_sighting`: the columns that a rule gives are those of its matches;
* `column_points`: so it is for all issues of a document.
-/

namespace CodeCoach.Review

open Text Pattern

/-! ### Where the rules point -/

/-- Whether a text begins with a word, given in lower case, without regard to case. -/
def BeginsAnyCase (word : String) (cs : List Char) : Prop :=
  List.Forall₂ (fun l c => isLetter l c) word.toList (cs.take word.toList.length)

/-- The sinks by their names in messages, each with the text by which code uses it. -/
def JavaScript.sinkTexts : List (String × String) :=
  [("innerHTML assignment", ".innerHTML"), ("document.write", "document.write"), ("eval", "eval")]

/-- The markers of unfinished work. -/
def Generic.markers : List String := ["TODO", "FIXME", "HACK", "XXX"]

/-- The message with the wording about what was found. -/
def Wording.about (found : String) : Wording → String
  | plain text => text
  | around before after => before ++ found ++ after

/-- Whether a text begins with what a rule points at when its message is about `found`. -/
def Rule.PointsAt (r : Rule) (found : String) (cs : List Char) : Prop :=
  match r with
  | unguardedAccess => found ≠ "" ∧ startsWith found cs
  | dangerousSink => ∃ text, (found, text) ∈ JavaScript.sinkTexts ∧ startsWith text cs
  | debugLogging => startsWith "console." cs
  | imageWithoutAlt => BeginsAnyCase "<img" cs
  | namelessButton => BeginsAnyCase "<button" cs
  | inlineStyle => BeginsAnyCase "style" cs ∨
      ∃ c rest, cs = c :: rest ∧ (isBlank c ∨ c = ':') ∧ BeginsAnyCase "style" rest
  | debtMarker => found ∈ Generic.markers ∧ startsWith found cs
  | _ => False

/-- The matches of a rule's pattern in a line, each with what a message about it names. -/
def Rule.sightings (line : Line) : Rule → List (String × Match)
  | unguardedAccess =>
    (JavaScript.propertyChain.findAll (mask line)).map fun m => (String.ofList m.text, m)
  | dangerousSink => JavaScript.sinks.filterMap fun (pattern, sink, _) =>
    (pattern.find (mask line)).map (sink, ·)
  | debugLogging => ((JavaScript.debugLog.find (mask line)).map ("", ·)).toList
  | imageWithoutAlt => (Markup.imageTag.findAll line).map ("", ·)
  | namelessButton => (Markup.buttonOpen.findAll line).map ("", ·)
  | inlineStyle => ((Markup.inlineStyle.find line).map ("", ·)).toList
  | debtMarker => ((Generic.debtMarker.find line).map fun m => (String.ofList m.text, m)).toList
  | _ => []

variable {r : Rule} {line : Line} {cs : List Char} {m : Match} {found : String}

/-- Where a rule points there is something. -/
theorem Rule.PointsAt.ne_nil (h : r.PointsAt found cs) : cs ≠ [] := by
  rintro rfl
  have hany {word : String} (hword : word ≠ "") : ¬ BeginsAnyCase word [] := fun h => by
    rw [BeginsAnyCase, List.take_nil, List.forall₂_nil_right_iff] at h
    exact hword (String.toList_inj.1 h)
  have hstarts {word : String} (hword : word ≠ "") : ¬ startsWith word [] := fun h => by
    obtain ⟨rest, hrest⟩ := startsWith_iff_prefix.1 h
    exact hword (String.toList_inj.1 (List.append_eq_nil_iff.1 hrest.symm).1)
  have htexts : ∀ s ∈ JavaScript.sinkTexts, s.2 ≠ "" := by decide
  have hmarkers : ∀ s ∈ Generic.markers, s ≠ "" := by decide
  cases r with
  | unguardedAccess => exact hstarts h.1 h.2
  | dangerousSink =>
    obtain ⟨text, htext, h⟩ := h
    exact hstarts (htexts _ htext) h
  | debugLogging => exact hstarts (by decide) h
  | imageWithoutAlt | namelessButton => exact hany (by decide) h
  | inlineStyle =>
    rcases h with h | ⟨c, rest, h, -⟩
    · exact hany (by decide) h
    · cases h
  | debtMarker => exact hstarts (hmarkers _ h.1) h.2
  | _ => exact h

/-! ### What the patterns find -/

/-- After the given bytes of a line a text with the property begins. -/
def StandsAt (line : Line) (offset : Nat) (P : List Char → Prop) : Prop :=
  ∃ before after, line = before ++ after ∧ offset = byteLength before ∧ P after

variable {offset : Nat} {P Q : List Char → Prop}

theorem StandsAt.imp (h : StandsAt line offset P) (hPQ : ∀ cs, P cs → Q cs) :
    StandsAt line offset Q := by
  obtain ⟨before, after, hline, hoffset, hP⟩ := h
  exact ⟨before, after, hline, hoffset, hPQ after hP⟩

/-- The bytes end between two characters of the line. -/
theorem StandsAt.exists_charsWithin (h : StandsAt line offset P) :
    ∃ n, charsWithin offset line = some n ∧ P (line.drop n) := by
  obtain ⟨before, after, rfl, rfl, hP⟩ := h
  exact ⟨before.length, charsWithin_append before after, by rwa [List.drop_left]⟩

theorem standsAt_of_passes {passed : List Char} (hpass : (Place.start line).Passes passed m.start)
    (h : P m.start.rest) : StandsAt line m.start.offset P :=
  ⟨passed, m.start.rest, hpass.rest, Place.offset_of_passes_start hpass, h⟩

/-- What is seen in a mask without a blank stands in the line after as many bytes. -/
theorem standsAt_of_passes_mask {passed w : List Char}
    (hpass : (Place.start (mask line)).Passes passed m.start) (hw : w ≠ []) (hblank : ' ' ∉ w)
    (hbegin : w <+: m.start.rest) : StandsAt line m.start.offset (w <+: ·) := by
  obtain ⟨v, hv⟩ := hbegin
  have hmask : mask line = passed ++ (w ++ v) := by
    rw [hv]
    exact hpass.rest
  obtain ⟨before, after, hline, hbytes, -, -⟩ := exists_outside_of_mask hw hblank hmask
  exact ⟨before, w ++ after, hline, (Place.offset_of_passes_start hpass).trans hbytes.symm,
    List.prefix_append w after⟩

theorem beginsAnyCase_of_leads {word : String} {l : List Pattern}
    (h : Leads (wordAnyCase word :: l) cs) : BeginsAnyCase word cs := by
  obtain ⟨u, v, rfl, hall, -⟩ := leads_wordAnyCase_cons_iff.1 h
  rw [BeginsAnyCase, hall.length_eq, List.take_left]
  exact hall

theorem prefix_of_leads {w : String} {l : List Pattern} (h : Leads (word w :: l) cs) :
    w.toList <+: cs := by
  obtain ⟨v, rfl, -⟩ := leads_word_cons_iff.1 h
  exact List.prefix_append _ v

/-- The text of a sink begins its matches. -/
theorem JavaScript.exists_text_of_mem_sinks {pattern : Pattern} {sink remedy : String}
    (hsink : (pattern, sink, remedy) ∈ sinks) (h : Leads [pattern] cs) :
    ∃ text, (sink, text) ∈ sinkTexts ∧ text.toList <+: cs := by
  simp only [sinks, List.mem_cons, Prod.mk.injEq, List.not_mem_nil, or_false] at hsink
  rcases hsink with ⟨rfl, rfl, -⟩ | ⟨rfl, rfl, -⟩ | ⟨rfl, rfl, -⟩
  · rw [innerHtml, leads_inOrder_cons_iff] at h
    exact ⟨".innerHTML", by decide, prefix_of_leads h⟩
  · rw [documentWrite, leads_inOrder_cons_iff, List.cons_append, leads_edge_cons_iff] at h
    exact ⟨"document.write", by decide, prefix_of_leads h⟩
  · rw [evalCall, leads_inOrder_cons_iff, List.cons_append, leads_edge_cons_iff] at h
    exact ⟨"eval", by decide, prefix_of_leads h⟩

/-- The matches of the pattern for markers pass a marker. -/
theorem Generic.exists_marker_of_ends {s e : Place} (h : Ends debtMarker s e) :
    ∃ marker ∈ markers, s.Passes marker.toList e := by
  obtain ⟨_, hstart, hrest⟩ := ends_inOrder_cons_iff.1 h
  cases hstart
  obtain ⟨_, hword, hend⟩ := ends_inOrder_cons_iff.1 hrest
  cases hend
  obtain ⟨_, hmem, hpass⟩ := ends_anyOf_iff.1 hword
  obtain ⟨marker, hmarker, rfl⟩ := List.mem_map.1 (show _ ∈ markers.map word from hmem)
  exact ⟨marker, hmarker, ends_word_iff.1 hpass⟩

/-- At each match of a rule's pattern stands what the rule points at. -/
theorem Rule.standsAt_of_mem_sightings (h : (found, m) ∈ r.sightings line) :
    StandsAt line m.start.offset (r.PointsAt found) := by
  cases r with
  | unguardedAccess =>
    obtain ⟨m, hm, heq⟩ := List.mem_map.1 h
    cases heq
    obtain ⟨before, root, links, after, hchain, htext, hline, hoffset, -⟩ :=
      JavaScript.exists_chain_of_mem_findAll hm
    rw [htext]
    refine ⟨before, _, hline, hoffset, ?_, ?_⟩
    · simpa using hchain.access_ne_nil
    · simp [startsWith]
  | dangerousSink =>
    obtain ⟨⟨pattern, sink, remedy⟩, hsink, hfind⟩ := List.mem_filterMap.1 h
    obtain ⟨m, hm, heq⟩ := Option.map_eq_some_iff.1 hfind
    cases heq
    obtain ⟨passed, hpass, hat⟩ := find_eq_some hm
    obtain ⟨text, htext, hbegin⟩ := JavaScript.exists_text_of_mem_sinks hsink (leads_of_matchAt hat)
    have hplain : ∀ s ∈ JavaScript.sinkTexts, s.2.toList ≠ [] ∧ ' ' ∉ s.2.toList := by decide
    obtain ⟨hne, hblank⟩ := hplain _ htext
    exact (standsAt_of_passes_mask hpass hne hblank hbegin).imp fun cs hcs =>
      ⟨text, htext, List.isPrefixOf_iff_prefix.2 hcs⟩
  | debugLogging =>
    obtain ⟨m, hm, heq⟩ := Option.map_eq_some_iff.1 (Option.mem_toList.1 h)
    cases heq
    obtain ⟨passed, hpass, hat⟩ := find_eq_some hm
    have hleads := leads_of_matchAt hat
    rw [JavaScript.debugLog, leads_inOrder_cons_iff, List.cons_append, leads_edge_cons_iff] at hleads
    exact (standsAt_of_passes_mask hpass (by decide) (by decide) (prefix_of_leads hleads)).imp
      fun cs hcs => List.isPrefixOf_iff_prefix.2 hcs
  | imageWithoutAlt =>
    obtain ⟨m, hm, heq⟩ := List.mem_map.1 h
    cases heq
    obtain ⟨passed, hpass, hat⟩ := mem_findAll hm
    have hleads := leads_of_matchAt hat
    rw [Markup.imageTag, leads_inOrder_cons_iff] at hleads
    exact standsAt_of_passes hpass (beginsAnyCase_of_leads hleads)
  | namelessButton =>
    obtain ⟨m, hm, heq⟩ := List.mem_map.1 h
    cases heq
    obtain ⟨passed, hpass, hat⟩ := mem_findAll hm
    have hleads := leads_of_matchAt hat
    have hbutton : Markup.buttonName = inOrder [wordAnyCase "<button", edge] := rfl
    rw [Markup.buttonOpen, leads_inOrder_cons_iff, List.cons_append, hbutton,
      leads_inOrder_cons_iff] at hleads
    exact standsAt_of_passes hpass (beginsAnyCase_of_leads hleads)
  | inlineStyle =>
    obtain ⟨m, hm, heq⟩ := Option.map_eq_some_iff.1 (Option.mem_toList.1 h)
    cases heq
    obtain ⟨passed, hpass, hat⟩ := find_eq_some hm
    have hleads := leads_of_matchAt hat
    rw [Markup.inlineStyle, leads_inOrder_cons_iff, List.cons_append, Markup.attributeStart,
      leads_either_cons_iff, leads_one_cons_iff] at hleads
    refine standsAt_of_passes hpass ?_
    rcases hleads with hleads | ⟨c, rest, hrest, hc, hleads⟩
    · exact .inl (beginsAnyCase_of_leads (leads_atStart_cons_iff.1 hleads))
    · exact .inr ⟨c, rest, hrest, by simpa using hc, beginsAnyCase_of_leads hleads⟩
  | debtMarker =>
    obtain ⟨m, hm, heq⟩ := Option.map_eq_some_iff.1 (Option.mem_toList.1 h)
    cases heq
    obtain ⟨passed, hpass, hat⟩ := find_eq_some hm
    obtain ⟨marker, hmarker, hword⟩ := Generic.exists_marker_of_ends (ends_of_matchAt hat)
    rw [(Match.text_of_passes hword).1, String.ofList_toList]
    exact standsAt_of_passes hpass ⟨hmarker, startsWith_iff_prefix.2 ⟨_, hword.rest⟩⟩
  | _ => cases h

/-! ### Columns -/

/-- A column is that of a match, and the message is about what was found there. -/
theorem Rule.exists_sighting {usesAsync testFile : Bool} {rest : List Line} {f : Finding} {c : Nat}
    (hf : f ∈ r.findings usesAsync testFile line rest) (hc : f.column = some c) :
    ∃ found m, (found, m) ∈ r.sightings line ∧ f.message = r.wording.about found ∧
      c = columnOf line m.start.offset := by
  cases r with
  | unguardedAccess =>
    obtain ⟨m, hm, rfl⟩ := Option.map_eq_some_iff.1 (Option.mem_toList.1 hf)
    cases hc
    exact ⟨_, m, List.mem_map.2 ⟨m, JavaScript.mem_findAll_of_unguardedChain hm, rfl⟩, rfl, rfl⟩
  | dangerousSink =>
    obtain ⟨⟨pattern, sink, remedy⟩, hsink, hfind⟩ :=
      List.exists_of_findSome?_eq_some (Option.mem_toList.1 hf)
    obtain ⟨m, hm, rfl⟩ := Option.map_eq_some_iff.1 hfind
    cases hc
    exact ⟨sink, m, List.mem_filterMap.2 ⟨_, hsink, Option.map_eq_some_iff.2 ⟨m, hm, rfl⟩⟩, rfl, rfl⟩
  | debugLogging =>
    cases testFile with
    | true => cases hf
    | false =>
      obtain ⟨m, hm, rfl⟩ := Option.map_eq_some_iff.1 (Option.mem_toList.1 hf)
      cases hc
      exact ⟨"", m, Option.mem_toList.2 (Option.map_eq_some_iff.2 ⟨m, hm, rfl⟩), rfl, rfl⟩
  | imageWithoutAlt =>
    obtain ⟨m, hm, hfind⟩ := List.mem_filterMap.1 hf
    obtain ⟨-, rfl⟩ := mem_of_else (Option.mem_toList.2 hfind)
    cases hc
    exact ⟨"", m, List.mem_map.2 ⟨m, hm, rfl⟩, rfl, rfl⟩
  | namelessButton =>
    obtain ⟨m, hm, hfind⟩ := List.mem_filterMap.1 hf
    obtain ⟨-, rfl⟩ := mem_of_else (Option.mem_toList.2 hfind)
    cases hc
    exact ⟨"", m, List.mem_map.2 ⟨m, hm, rfl⟩, rfl, rfl⟩
  | inlineStyle =>
    obtain ⟨m, hm, rfl⟩ := Option.map_eq_some_iff.1 (Option.mem_toList.1 hf)
    cases hc
    exact ⟨"", m, Option.mem_toList.2 (Option.map_eq_some_iff.2 ⟨m, hm, rfl⟩), rfl, rfl⟩
  | debtMarker =>
    obtain ⟨m, hm, rfl⟩ := Option.map_eq_some_iff.1 (Option.mem_toList.1 hf)
    cases hc
    refine ⟨_, m, Option.mem_toList.2 (Option.map_eq_some_iff.2 ⟨m, hm, rfl⟩), ?_, rfl⟩
    simp [wording, Wording.about]
  | concatenatedQuery | nestedLoop | promiseChain | interpolatedSql | bareExcept | overlongLine =>
    obtain ⟨-, rfl⟩ := mem_of_if hf
    cases hc
  | unannotatedDefinition =>
    obtain ⟨name, -, rfl⟩ := Option.map_eq_some_iff.1 (Option.mem_toList.1 hf)
    cases hc

/-- Every column lies on its line, and from there on the line begins with what the rule matched.
All matches of the rule are at characters of the line, so no column stands for lack of another. -/
theorem column_points {d : Document} {i : Issue} (hi : i ∈ ofDocument d) {c : Nat}
    (hc : i.location.column = some c) :
    ∃ n line, i.location.line = n + 1 ∧ (linesOf d.text)[n]? = some line ∧
      ∃ r ∈ (Family.ofTag d.languageTag).ruleOrder, r.reports i ∧ 1 ≤ c ∧ c ≤ line.length ∧
        (∃ found m, (found, m) ∈ r.sightings line ∧ i.message = r.wording.about found ∧
          r.PointsAt found (line.drop (c - 1)) ∧ c = columnOf line m.start.offset) ∧
        ∀ s ∈ r.sightings line, (charsWithin s.2.start.offset line).isSome := by
  obtain ⟨n, line, hline, r, hr, f, hf, rfl⟩ := exists_finding hi
  obtain ⟨found, m, hm, hmessage, hcolumn⟩ := Rule.exists_sighting hf hc
  obtain ⟨k, hk, hpoints⟩ := (Rule.standsAt_of_mem_sightings hm).exists_charsWithin
  obtain rfl : c = k + 1 := by rw [hcolumn, columnOf, hk]
  have hlength : k < line.length := Nat.lt_of_not_le fun hle =>
    hpoints.ne_nil (List.drop_eq_nil_of_le hle)
  refine ⟨n, line, rfl, hline, r, hr, (Rule.of_mem_findings hf).1, Nat.succ_pos k, hlength,
    ⟨found, m, hm, hmessage, hpoints, hcolumn⟩, fun s hs => ?_⟩
  obtain ⟨k, hk, -⟩ := (Rule.standsAt_of_mem_sightings hs).exists_charsWithin
  rw [hk]
  rfl

/-- A chain behind literals whose characters take more than one byte. -/
def behindLiterals : Document := ⟨"log('é', \x60日本\x60, a.b.c)\n", "js", "src/a.js"⟩

theorem column_points_behindLiterals :
    ∃ i ∈ ofDocument behindLiterals, i.location.column = some 16 ∧
      ∃ r found, i.message = Wording.about found r.wording ∧
        Rule.PointsAt r found "a.b.c)".toList := by
  have hany : (ofDocument behindLiterals).any (·.location.column == some 16) := by decide +kernel
  obtain ⟨i, hi, hcolumn⟩ := List.any_eq_true.1 hany
  obtain ⟨n, line, -, hline, r, -, -, -, -, ⟨found, m, -, hmessage, hpoints, -⟩, -⟩ :=
    column_points hi (eq_of_beq hcolumn)
  refine ⟨i, hi, eq_of_beq hcolumn, r, found, hmessage, ?_⟩
  have hlines : linesOf behindLiterals.text = ["log('é', \x60日本\x60, a.b.c)".toList] := by
    decide +kernel
  rw [hlines] at hline
  obtain rfl := List.mem_singleton.1 (List.mem_of_getElem? hline)
  have hdrop : "log('é', \x60日本\x60, a.b.c)".toList.drop (16 - 1) = "a.b.c)".toList := by decide
  exact hdrop ▸ hpoints

end CodeCoach.Review
