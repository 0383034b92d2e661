import CodeCoach.Proofs.Review.Element
import Mathlib.Data.Bool.AllAny

/-!
# Images without alternative text

The rule for images looks for the beginning of an image tag that ends at a word boundary.  A hyphen
makes such a boundary, so the name of a custom element that begins with `img-` is taken for that of
an image.

* `OpeningTag`, a tag with its name and attributes, and `OpeningTag.isBareImage`, whether it is taken
  for an image and gives no alternative text;
* `occursIn_altAttribute_iff`: where the rule sees an alternative text;
* `opensTag_name`: which names are taken for those of images;
* `images_flagged`: what the rule says about a line.
-/

namespace CodeCoach.Review.Markup

open Text Pattern

variable {cs name attributes : List Char}

/-- The name of a tag has word characters and hyphens only. -/
def IsTagName (name : List Char) : Prop := ∀ c ∈ name, isWord c ∨ c = '-'

instance (name : List Char) : Decidable (IsTagName name) :=
  decidable_of_iff _ List.all_iff_forall_prop

/-- An opening tag. -/
structure OpeningTag where
  name : List Char
  attributes : List Char
  isName : IsTagName name
  isAttributes : IsAttributes attributes

def OpeningTag.write (t : OpeningTag) : List Char := bracketed (t.name ++ t.attributes)

/-- Whether a name is taken for that of an image: it is `img`, in any case, or goes on after these
letters with a hyphen. -/
def namesImage (name : List Char) : Bool :=
  startsAnyCase "img" name && (name.drop 3).head?.all (· == '-')

/-- A character after which an attribute may begin. -/
def precedesAttribute (c : Char) : Bool := isBlank c || c == ':'

/-- Whether an alternative text is among the attributes. -/
def givesAlt (attributes : List Char) : Bool :=
  anyAfter precedesAttribute (assigns "alt") attributes

/-- Whether a tag is taken for an image and has no alternative text. -/
def OpeningTag.isBareImage (t : OpeningTag) : Bool := namesImage t.name && !givesAlt t.attributes

/-! ### Alternative texts -/

theorem exists_ends_assigns_iff {s : Place} :
    (∃ e, Ends (inOrder [wordAnyCase "alt", blanks, char '=']) s e) ↔ assigns "alt" s.rest :=
  (exists_ends_inOrder_iff (by decide)).trans (leads_assigns_iff (by decide))

/-- An alternative text begins with the text that is searched, or after a blank or a colon. -/
theorem occursIn_altAttribute_iff :
    altAttribute.occursIn cs ↔ assigns "alt" cs ∨ anyAfter precedesAttribute (assigns "alt") cs := by
  rw [occursIn_iff, anyAfter_iff]
  constructor
  · rintro ⟨passed, s, e, hpass, hends⟩
    obtain ⟨m, hstart, hends⟩ := ends_inOrder_cons_iff.1 hends
    have hassigns := exists_ends_assigns_iff.1 ⟨e, hends⟩
    cases hstart with
    | left h =>
      cases h with
      | atStart =>
        have hnone : passed = [] := by
          cases passed with
          | nil => rfl
          | cons c passed =>
            exact absurd (Place.offset_of_passes_start hpass) (Place.byteLength_pos c passed).ne
        subst hnone
        have hrest : cs = _ := hpass.rest
        exact .inl (hrest ▸ hassigns)
    | right h =>
      obtain ⟨c, hc, hfirst⟩ := h.of_one
      refine .inr ⟨passed, c, m.rest, ?_, hc, hassigns⟩
      exact (hpass.trans hfirst).rest.trans (List.append_assoc ..)
  · rintro (h | ⟨a, c, b, rfl, hc, h⟩)
    · obtain ⟨e, hends⟩ := exists_ends_assigns_iff (s := Place.start cs).2 h
      exact ⟨[], _, e, .refl _, ends_inOrder_cons_iff.2 ⟨_, .left .atStart, hends⟩⟩
    · obtain ⟨s, hpass, hrest⟩ := Place.exists_passes (s := Place.start (a ++ c :: b)) rfl
      have hrest : s.rest = [c] ++ b := hrest
      obtain ⟨m, hfirst, rfl⟩ := Place.exists_passes hrest
      obtain ⟨e, hends⟩ := exists_ends_assigns_iff.2 h
      exact ⟨a, s, e, hpass, ends_inOrder_cons_iff.2
        ⟨m, .right (ends_one_of_passes hc hfirst), hends⟩⟩

/-! ### Names -/

/-- What names are made of is neither a bracket nor precedes an attribute. -/
theorem not_special_of_name {c : Char} (h : isWord c ∨ c = '-') :
    c ≠ '<' ∧ c ≠ '>' ∧ precedesAttribute c = false := by
  rcases h with h | rfl
  · have hne {x : Char} (hx : isWord x = false) : c ≠ x := by
      rintro rfl
      rw [hx] at h
      cases h
    have hblank : isBlank c = false := by
      rw [Bool.eq_false_iff]
      exact fun hblank => hne (isWord_of_isBlank hblank) rfl
    refine ⟨hne (by decide), hne (by decide), ?_⟩
    rw [precedesAttribute, hblank, Bool.false_or, beq_eq_false_iff_ne]
    exact hne (by decide)
  · decide

theorem OpeningTag.unbracketed (t : OpeningTag) : Unbracketed (t.name ++ t.attributes) :=
  .append ⟨fun h => (not_special_of_name (t.isName _ h)).1 rfl,
    fun h => (not_special_of_name (t.isName _ h)).2.1 rfl⟩ t.isAttributes.unbracketed

/-- A name is that of an image up to the word boundary. -/
theorem opensTag_name (t : OpeningTag) :
    opensTag "img" (t.name ++ t.attributes) = namesImage t.name := by
  obtain ⟨name, attributes, hname, hattributes⟩ := t
  have hstarts : startsAnyCase "img" (name ++ attributes) = startsAnyCase "img" name := by
    cases attributes with
    | nil => rw [List.append_nil]
    | cons c attributes =>
      obtain rfl : c = ' ' := hattributes.head c rfl
      exact startsAnyCase_append_cons (by decide) name attributes
  show opensTag "img" (name ++ attributes) = namesImage name
  rw [opensTag_eq, hstarts, namesImage]
  cases h : startsAnyCase "img" name with
  | false => rfl
  | true =>
    obtain ⟨letters, after, rfl, hletters⟩ := startsAnyCase_iff.1 h
    have hlength : "img".toList.length = letters.length := by rw [← hletters, List.length_map]
    have hthree : letters.length = 3 := hlength.symm.trans (by decide)
    rw [hlength, List.append_assoc, List.drop_left, ← hthree, List.drop_left, Bool.true_and,
      Bool.true_and]
    cases after with
    | nil =>
      rw [List.nil_append, hattributes.any_isWord]
      rfl
    | cons c after =>
      show (!isWord c) = (c == '-')
      rcases hname c (by simp) with hword | rfl
      · have hhyphen : c ≠ '-' := by
          rintro rfl
          revert hword
          decide
        rw [hword, beq_eq_false_iff_ne.2 hhyphen]
        rfl
      · decide

/-! ### Images of a line -/

/-- An alternative text of a tag is among its attributes. -/
theorem lacksAlt_write (t : OpeningTag) (rest : List Char) :
    lacksAlt (t.write ++ rest) = !givesAlt t.attributes := by
  have hname : ∀ c ∈ '<' :: t.name, precedesAttribute c = false :=
    List.forall_mem_cons.2 ⟨by decide, fun c hc => (not_special_of_name (t.isName c hc)).2.2⟩
  have htext : image.text (t.write ++ rest) = '<' :: t.name ++ t.attributes :=
    (text_bracketed image t.unbracketed rest).trans (by simp [image])
  have halt : altAttribute.occursIn ('<' :: t.name ++ t.attributes) = givesAlt t.attributes := by
    have hstart : assigns "alt" ('<' :: t.name ++ t.attributes) = false := rfl
    rw [Bool.eq_iff_iff, occursIn_altAttribute_iff, hstart, anyAfter_append hname, givesAlt]
    simp
  rw [lacksAlt, htext, halt]

/-- The accessibility warnings on a line of texts and opening tags are at the tags that are taken for
images and have no alternative text. -/
theorem images_flagged {d : Document} {n : Nat} (hfamily : Family.ofTag d.languageTag = .markup)
    (pieces : List (Piece OpeningTag))
    (hline : (linesOf d.text)[n]? = some (lineOf OpeningTag.write pieces)) :
    (accessibility .warning (onLine (n + 1) (ofDocument d))).map (·.location.column) =
      ((elements OpeningTag.write 1 pieces).filter fun t => t.2.isBareImage).map
        fun t => some t.1 := by
  rw [columns_accessibility_warning hfamily hline, TagForm.tags]
  refine columns_lineOf rfl (fun column t rest => ⟨_, tagsFrom_bracketed rfl t.unbracketed, ?_⟩) 1
    pieces
  have hopens : image.opens (t.write ++ rest) = namesImage t.name :=
    (opens_bracketed rfl (by decide) _ rest).trans (opensTag_name t)
  have hlacks := lacksAlt_write t rest
  rw [OpeningTag.write] at hopens hlacks
  rw [hopens, OpeningTag.isBareImage]
  cases namesImage t.name with
  | false => rfl
  | true => cases hgives : givesAlt t.attributes <;> simp [hlacks, hgives]

/-- Images with and without an alternative text, between other tags. -/
def gallery : Document :=
  ⟨"<p>a <IMG data-alt=b> <img-zoom> <image><img :Alt = c>", "vue", "src/Gallery.vue"⟩

theorem images_flagged_gallery :
    (accessibility .warning (onLine 1 (ofDocument gallery))).map (·.location.column) =
      [some 6, some 23] := by
  have hline : (linesOf gallery.text)[0]? = some (lineOf OpeningTag.write
      [.element ⟨"p".toList, [], by decide, by decide⟩,
        .text "a ".toList (by decide),
        .element ⟨"IMG".toList, " data-alt=b".toList, by decide, by decide⟩,
        .text " ".toList (by decide),
        .element ⟨"img-zoom".toList, [], by decide, by decide⟩,
        .text " ".toList (by decide),
        .element ⟨"image".toList, [], by decide, by decide⟩,
        .element ⟨"img".toList, " :Alt = c".toList, by decide, by decide⟩]) := by
    decide +kernel
  exact (images_flagged (by decide +kernel) _ hline).trans (by decide +kernel)

/-- A custom element that is no image. -/
def zoomed : Document := ⟨"<img-zoom src=\"a.png\">", "html", "index.html"⟩

/-- A custom element is taken for an image. -/
theorem images_flagged_customElement :
    Family.ofTag zoomed.languageTag = .markup ∧
      (linesOf zoomed.text)[0]? =
        some (bracketed ("img-zoom".toList ++ " src=\"a.png\"".toList)) ∧
      IsTagName "img-zoom".toList ∧ IsAttributes " src=\"a.png\"".toList ∧
      "img-zoom".toList.map Char.toLower ≠ "img".toList ∧
      accessibility .warning (onLine 1 (ofDocument zoomed)) ≠ [] :=
  ⟨by decide +kernel, by decide +kernel, by decide, by decide, by decide, by decide +kernel⟩

end CodeCoach.Review.Markup
