import CodeCoach.Proofs.Review.Element

/-!
# Buttons without a name

A button has a name when its tag gives a label or when some text stands in it outside of the tags.
What stands in it is cut out of the rest of the line, up to the closing tag that comes next, so other
buttons of the line make no difference.

* `Button`, a button with its attributes and its content, and `Button.isNameless`, whether neither
  gives it a name;
* `occursIn_ariaLabel`: where the rule sees a label;
* `upToClose_lineOf`, `withoutTags_lineOf`: what the rule takes for the content, and its text;
* `buttons_flagged`: what the rule says about a line.
-/

namespace CodeCoach.Review.Markup

open Text Pattern

variable {α : Type} {a cs rest inside attributes : List Char} {c : Char} {column : Nat}

/-- A tag that neither opens nor closes a button, by what stands in its brackets. -/
structure InnerTag where
  inside : List Char
  unbracketed : Unbracketed inside
  opensNone : startsAnyCase "button" inside = false
  closesNone : startsAnyCase "/button" inside = false

def InnerTag.write (t : InnerTag) : List Char := bracketed t.inside

/-- A button; texts and tags stand in it. -/
structure Button where
  attributes : List Char
  isAttributes : IsAttributes attributes
  content : List (Piece InnerTag)

def Button.write (b : Button) : List Char :=
  bracketed ("button".toList ++ b.attributes) ++
    (lineOf InnerTag.write b.content ++ bracketed "/button".toList)

/-- Whether a text begins with a label for screen readers. -/
def assignsLabel (cs : List Char) : Bool := assigns "aria-label" cs || assigns "aria-labelledby" cs

/-- Whether a label is among the attributes, at a word boundary. -/
def givesLabel (attributes : List Char) : Bool :=
  anyAfter (fun c => !isWord c) assignsLabel attributes

/-- Whether a piece shows no text. -/
def Piece.isBlank : Piece α → Bool
  | text cs _ => isAllBlank cs
  | element _ => true

/-- Whether a button has neither a label nor a text. -/
def Button.isNameless (b : Button) : Bool :=
  !givesLabel b.attributes && b.content.all Piece.isBlank

/-! ### Labels -/

theorem startsAnyCase_append {word first second : String}
    (hword : word.toList = first.toList ++ second.toList) :
    startsAnyCase word cs ↔
      startsAnyCase first cs ∧ startsAnyCase second (cs.drop first.toList.length) := by
  simp only [startsAnyCase_iff, hword]
  constructor
  · rintro ⟨w, v, rfl, hw⟩
    obtain ⟨u, w, rfl, hu, hw⟩ := List.map_eq_append_iff.1 hw
    refine ⟨⟨u, w ++ v, List.append_assoc .., hu⟩, w, v, ?_, hw⟩
    rw [← hu, List.length_map, List.append_assoc, List.drop_left]
  · rintro ⟨⟨u, v, rfl, hu⟩, w, v', hv, hw⟩
    rw [← hu, List.length_map, List.drop_left] at hv
    subst hv
    exact ⟨u ++ w, v', (List.append_assoc ..).symm, by rw [List.map_append, hu, hw]⟩

theorem startsAnyCase_labelledby : startsAnyCase "aria-labelledby" cs ↔
    startsAnyCase "aria-label" cs ∧ startsAnyCase "ledby" (cs.drop "aria-label".toList.length) :=
  startsAnyCase_append (by decide)

theorem leads_label_iff : Leads [wordAnyCase "aria-label", optional (wordAnyCase "ledby"), blanks,
    char '='] cs ↔ assignsLabel cs := by
  have hsign (v : List Char) : Leads [blanks, char '='] v ↔ startsWith "=" (trimStart v) :=
    (leads_blanks_char_iff (by decide)).trans (leads_char_iff rfl)
  have hlength : "aria-labelledby".toList.length =
      "aria-label".toList.length + "ledby".toList.length := by decide
  rw [leads_wordAnyCase_iff (by decide), leads_optional_cons_iff, leads_wordAnyCase_iff (by decide),
    hsign, hsign, assignsLabel, Bool.or_eq_true, assigns, assigns, Bool.and_eq_true,
    Bool.and_eq_true, startsAnyCase_labelledby, hlength, List.drop_drop, and_or_left, and_assoc]
  exact or_comm

/-- A label begins with a letter. -/
theorem isWord_of_assignsLabel (h : assignsLabel cs) : cs.head?.any isWord := by
  have hstarts : startsAnyCase "aria-label" cs := by
    simp only [assignsLabel, assigns, Bool.or_eq_true, Bool.and_eq_true] at h
    rcases h with ⟨h, -⟩ | ⟨h, -⟩
    · exact h
    · exact (startsAnyCase_labelledby.1 h).1
  obtain ⟨u, v, rfl, hu⟩ := startsAnyCase_iff.1 hstarts
  cases u with
  | nil => cases hu
  | cons c u =>
    have hc : c.toLower = 'a' := (List.cons.inj hu).1
    exact isWord_of_isAlpha (isAlpha_of_toLower (hc ▸ by decide))

/-- A label stands behind a character that is no word character, as attributes begin with a blank. -/
theorem occursIn_ariaLabel (h : IsAttributes attributes) :
    ariaLabel.occursIn attributes = givesLabel attributes := by
  rw [Bool.eq_iff_iff, givesLabel, anyAfter_iff, ariaLabel, occursIn_edge_iff (by decide)]
  simp only [leads_label_iff]
  constructor
  · rintro ⟨before, rest, rfl, hedge, hlabel⟩
    have hword := isWord_of_assignsLabel hlabel
    rw [hword] at hedge
    rcases List.eq_nil_or_concat before with rfl | ⟨before, c, rfl⟩
    · -- The attributes would begin with the label.
      obtain ⟨c, hc⟩ := Option.isSome_iff_exists.1 (Option.isSome_of_any hword)
      obtain rfl := h.head c hc
      rw [hc] at hword
      exact absurd hword (by decide)
    · refine ⟨before, c, rest, by simp, ?_, hlabel⟩
      simpa using hedge
  · rintro ⟨before, c, rest, rfl, hc, hlabel⟩
    refine ⟨before ++ [c], rest, by simp, ?_, hlabel⟩
    rw [isWord_of_assignsLabel hlabel, List.getLast?_concat]
    simpa using hc

/-! ### Contents -/

theorem upToClose_eq (cs : List Char) : upToClose cs =
    ((buttonClose.find cs).map (·.start.rest)).map fun rest =>
      cs.take (cs.length - rest.length) := by
  rw [Option.map_map]
  rfl

theorem startsAnyCase_close (inside rest : List Char) :
    startsAnyCase "</button" (bracketed inside ++ rest) = startsAnyCase "/button" inside :=
  startsAnyCase_bracketed rfl (by decide) inside rest

/-- Nothing stands before a closing tag with which a text begins. -/
theorem upToClose_bracketed_close (rest : List Char) :
    upToClose (bracketed "/button".toList ++ rest) = some [] := by
  have hleads : Leads [buttonClose] (bracketed "/button".toList ++ rest) := by
    have hstarts : startsAnyCase "</button" (bracketed "/button".toList ++ rest) :=
      startsAnyCase_close _ rest
    refine leads_inOrder_cons_iff.2 ((leads_wordAnyCase_iff (by decide)).2 ⟨hstarts, ?_⟩)
    refine (leads_blanks_char_iff (by decide)).2 (leads_char_cons_iff.2 ⟨rest, ?_, leads_nil⟩)
    rfl
  rw [upToClose_eq, rest_find_of_leads (by decide) hleads, Option.map_some, Nat.sub_self,
    List.take_zero]

theorem upToClose_cons (h : startsAnyCase "</button" (c :: rest) = false) :
    upToClose (c :: rest) = (upToClose rest).map (c :: ·) := by
  have hleads : ¬Leads [buttonClose] (c :: rest) := by
    intro hleads
    have hstarts := ((leads_wordAnyCase_iff (by decide)).1 (leads_inOrder_cons_iff.1 hleads)).1
    rw [h] at hstarts
    cases hstarts
  rw [upToClose_eq, rest_find_cons (by decide) hleads, upToClose_eq]
  cases hfind : buttonClose.find rest with
  | none => rfl
  | some m =>
    obtain ⟨passed, hpass, -⟩ := find_eq_some hfind
    have hrest : rest = passed ++ m.start.rest := hpass.rest
    simp only [Option.map_some, Option.some.injEq]
    rw [List.length_cons, Nat.succ_sub (by rw [hrest]; simp), List.take_succ_cons]

/-- No closing tag begins in a text without opening brackets. -/
theorem upToClose_append (ha : '<' ∉ a) :
    upToClose (a ++ rest) = (upToClose rest).map (a ++ ·) := by
  induction a with
  | nil => simp
  | cons c a ih =>
    have hc := List.ne_of_not_mem_cons ha
    rw [List.cons_append, upToClose_cons (startsAnyCase_eq_false (by decide) (Ne.symm hc) _),
      ih (List.not_mem_of_not_mem_cons ha), Option.map_map]
    rfl

theorem upToClose_inner (t : InnerTag) (rest : List Char) :
    upToClose (t.write ++ rest) = (upToClose rest).map (t.write ++ ·) := by
  have hstarts : startsAnyCase "</button" (t.write ++ rest) = false :=
    (startsAnyCase_close t.inside rest).trans t.closesNone
  have hopening : '<' ∉ t.inside ++ ['>'] := by simp [t.unbracketed.opening]
  rw [InnerTag.write, bracketed, List.cons_append] at hstarts ⊢
  rw [upToClose_cons hstarts, upToClose_append hopening, Option.map_map]
  rfl

theorem upToClose_lineOf (content : List (Piece InnerTag)) (rest : List Char) :
    upToClose (lineOf InnerTag.write content ++ rest) =
      (upToClose rest).map (lineOf InnerTag.write content ++ ·) := by
  induction content with
  | nil => simp [lineOf]
  | cons piece content ih =>
    have hpiece (rest : List Char) : upToClose (piece.write InnerTag.write ++ rest) =
        (upToClose rest).map (piece.write InnerTag.write ++ ·) := by
      cases piece with
      | text cs h => exact upToClose_append h.opening
      | element t => exact upToClose_inner t rest
    simp only [lineOf_cons, List.append_assoc, hpiece, ih, Option.map_map, Function.comp_def]

theorem withoutTags_append (ha : '<' ∉ a) :
    withoutTags false (a ++ rest) = a ++ withoutTags false rest := by
  induction a with
  | nil => rfl
  | cons c a ih =>
    have hc := List.ne_of_not_mem_cons ha
    rw [List.cons_append, withoutTags, if_neg Bool.false_ne_true, if_neg (by simp [Ne.symm hc]),
      ih (List.not_mem_of_not_mem_cons ha), List.cons_append]

theorem withoutTags_inside (ha : '>' ∉ a) :
    withoutTags true (a ++ '>' :: rest) = withoutTags false rest := by
  induction a with
  | nil => rfl
  | cons c a ih =>
    have hc := List.ne_of_not_mem_cons ha
    rw [List.cons_append, withoutTags, if_pos rfl, bne_iff_ne.2 (Ne.symm hc),
      ih (List.not_mem_of_not_mem_cons ha)]

/-- Without the tags the texts are left. -/
theorem isAllBlank_withoutTags (content : List (Piece InnerTag)) :
    isAllBlank (withoutTags false (lineOf InnerTag.write content)) =
      content.all Piece.isBlank := by
  induction content with
  | nil => rfl
  | cons piece content ih =>
    rw [lineOf_cons, List.all_cons, ← ih]
    cases piece with
    | text cs h =>
      rw [Piece.write, withoutTags_append h.opening, isAllBlank, List.all_append]
      rfl
    | element t =>
      rw [Piece.write, InnerTag.write, bracketed_append, withoutTags, if_neg Bool.false_ne_true,
        if_pos (beq_self_eq_true '<'), withoutTags_inside t.unbracketed.closing]
      rfl

/-- What counts as the content of a button is its content. -/
theorem hasVisibleText_lineOf (content : List (Piece InnerTag)) (rest : List Char)
    (lines : List Line) :
    hasVisibleText (lineOf InnerTag.write content ++ (bracketed "/button".toList ++ rest)) lines =
      !content.all Piece.isBlank := by
  have hclose : upToClose (lineOf InnerTag.write content ++ (bracketed "/button".toList ++ rest)) =
      some (lineOf InnerTag.write content) := by
    rw [upToClose_lineOf, upToClose_bracketed_close, Option.map_some, List.append_nil]
  simp only [hasVisibleText, buttonContent, hclose, isAllBlank_withoutTags]

/-! ### Buttons of a line -/

theorem opens_bracketed_button (inside rest : List Char) :
    button.opens (bracketed inside ++ rest) = opensTag "button" inside :=
  opens_bracketed rfl (by decide) inside rest

/-- No button begins in the content of a button. -/
theorem tagsFrom_lineOf (content : List (Piece InnerTag)) (column : Nat) (rest : List Char) :
    button.tagsFrom false column (lineOf InnerTag.write content ++ rest) =
      button.tagsFrom false (column + (lineOf InnerTag.write content).length) rest := by
  induction content generalizing column with
  | nil => rfl
  | cons piece content ih =>
    have hpiece (rest : List Char) :
        button.tagsFrom false column (piece.write InnerTag.write ++ rest) =
          button.tagsFrom false (column + (piece.write InnerTag.write).length) rest := by
      cases piece with
      | text cs h => exact tagsFrom_append rfl h.opening
      | element t =>
        rw [Piece.write, InnerTag.write, tagsFrom_bracketed rfl t.unbracketed,
          opens_bracketed_button, opensTag_eq, t.opensNone, Bool.false_and,
          if_neg Bool.false_ne_true, List.nil_append]
    rw [lineOf_cons, List.append_assoc, hpiece, ih, List.length_append, Nat.add_assoc]

theorem Button.unbracketed (b : Button) : Unbracketed ("button".toList ++ b.attributes) :=
  .append (by decide) b.isAttributes.unbracketed

theorem Button.write_append (b : Button) (rest : List Char) :
    b.write ++ rest = bracketed ("button".toList ++ b.attributes) ++
      (lineOf InnerTag.write b.content ++ (bracketed "/button".toList ++ rest)) := by
  rw [Button.write, List.append_assoc, List.append_assoc]

theorem Button.opens_write (b : Button) (rest : List Char) : button.opens (b.write ++ rest) := by
  have hstarts : startsAnyCase "button" ("button".toList ++ b.attributes) :=
    startsAnyCase_iff.2 ⟨_, _, rfl, by decide⟩
  rw [b.write_append, opens_bracketed_button, opensTag_eq, hstarts, List.drop_left,
    b.isAttributes.any_isWord]
  rfl

/-- The only button that begins in a button is that itself. -/
theorem Button.tagsFrom_write (b : Button) (column : Nat) (rest : List Char) :
    button.tagsFrom false column (b.write ++ rest) =
      [(column, b.write ++ rest)] ++ button.tagsFrom false (column + b.write.length) rest := by
  have hopens := b.opens_write rest
  have hclose : button.opens (bracketed "/button".toList ++ rest) = false :=
    opens_bracketed_button _ rest
  have hlength : b.write.length = (bracketed ("button".toList ++ b.attributes)).length +
      ((lineOf InnerTag.write b.content).length + (bracketed "/button".toList).length) := by
    rw [Button.write, List.length_append, List.length_append]
  rw [b.write_append] at hopens ⊢
  rw [tagsFrom_bracketed rfl b.unbracketed, hopens, if_pos rfl, tagsFrom_lineOf,
    tagsFrom_bracketed rfl (by decide), hclose, if_neg Bool.false_ne_true, List.nil_append, hlength,
    Nat.add_assoc, Nat.add_assoc]

theorem Button.lacksName_write (b : Button) (rest : List Char) (lines : List Line) :
    lacksName lines (b.write ++ rest) = b.isNameless := by
  have htext : button.text (b.write ++ rest) = bracketed ("button".toList ++ b.attributes) := by
    rw [b.write_append]
    exact text_bracketed button b.unbracketed _
  have hattributes : buttonAttributes (bracketed ("button".toList ++ b.attributes)) =
      b.attributes := List.dropLast_concat
  have hafter : (b.write ++ rest).drop (bracketed ("button".toList ++ b.attributes)).length =
      lineOf InnerTag.write b.content ++ (bracketed "/button".toList ++ rest) := by
    rw [b.write_append, List.drop_left]
  rw [lacksName, htext, hattributes, hafter, occursIn_ariaLabel b.isAttributes,
    hasVisibleText_lineOf, Bool.not_or, Bool.not_not, Button.isNameless]

/-- The issues about accessibility that are only informative stand, on a line of texts and buttons,
at the buttons that have neither a label nor a text. -/
theorem buttons_flagged {d : Document} {n : Nat} (hfamily : Family.ofTag d.languageTag = .markup)
    (pieces : List (Piece Button))
    (hline : (linesOf d.text)[n]? = some (lineOf Button.write pieces)) :
    (accessibility .info (onLine (n + 1) (ofDocument d))).map (·.location.column) =
      ((elements Button.write 1 pieces).filter fun b => b.2.isNameless).map fun b => some b.1 := by
  rw [columns_accessibility_info hfamily hline, TagForm.tags]
  refine columns_lineOf rfl (fun column b rest => ⟨_, b.tagsFrom_write column rest, ?_⟩) 1 pieces
  rw [List.filter_singleton, b.lacksName_write]
  cases b.isNameless <;> rfl

/-- Buttons with and without a name. -/
def toolbar : Document :=
  ⟨"Edit: <button class=a> <i></i></button> <button ARIA-LabelledBy = n></button><button>" ++
    "<b>Go</b></button><button><img></button>", "svelte", "src/Toolbar.svelte"⟩

theorem buttons_flagged_toolbar :
    (accessibility .info (onLine 1 (ofDocument toolbar))).map (·.location.column) =
      [some 7, some 104] := by
  have hline : (linesOf toolbar.text)[0]? = some (lineOf Button.write
      [.text "Edit: ".toList (by decide),
        .element ⟨" class=a".toList, by decide, [.text " ".toList (by decide),
          .element ⟨"i".toList, by decide, by decide, by decide⟩,
          .element ⟨"/i".toList, by decide, by decide, by decide⟩]⟩,
        .text " ".toList (by decide),
        .element ⟨" ARIA-LabelledBy = n".toList, by decide, []⟩,
        .element ⟨[], by decide, [.element ⟨"b".toList, by decide, by decide, by decide⟩,
          .text "Go".toList (by decide),
          .element ⟨"/b".toList, by decide, by decide, by decide⟩]⟩,
        .element ⟨[], by decide, [.element ⟨"img".toList, by decide, by decide, by decide⟩]⟩]) := by
    decide +kernel
  exact (buttons_flagged (by decide +kernel) _ hline).trans (by decide +kernel)

end CodeCoach.Review.Markup
