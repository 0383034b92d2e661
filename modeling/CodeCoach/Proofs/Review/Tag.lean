import CodeCoach.Proofs.Pattern.Search
import CodeCoach.Proofs.Pattern.Word
import CodeCoach.Proofs.Text.Split
import CodeCoach.Review.Markup

/-!
# The tags that the rules for markup speak about

The two rules that speak about tags search a line with a pattern.  Here the tags of a line are read
off character by character, and the matches of the pattern are found to be at just these tags.

* `TagForm`, how the tags of a rule begin and end, and `TagForm.tags`, the tags of a line with their
  columns;
* `Markup.Recognizes`, a pattern that matches a form of tags, with `Markup.recognizes_imageTag` and
  `Markup.recognizes_buttonOpen`;
* `Markup.map_findAll`: the successive matches of such a pattern are at the tags of the line;
* `Markup.columns_imageWithoutAlt`, `Markup.columns_namelessButton`: what the rules find there.
-/

namespace CodeCoach.Review

open Text Pattern

/-- Whether a text begins with the start of a tag, in any case, and no word character follows. -/
def opensTag (start : String) (cs : List Char) : Bool :=
  (cs.take start.toList.length).map Char.toLower == start.toList &&
    !(cs.drop start.toList.length).head?.any isWord

/-- How the tags that a rule speaks about begin, and whether they count only with their closing
bracket. -/
structure TagForm where
  start : String
  closed : Bool
  deriving DecidableEq, Repr

namespace TagForm

/-- Whether a text begins with a tag. -/
def opens (t : TagForm) (cs : List Char) : Bool :=
  opensTag t.start cs && (!t.closed || cs.contains '>')

/-- The tag with which a text begins; it has its closing bracket only if it must. -/
def text (t : TagForm) (cs : List Char) : List Char :=
  cs.takeWhile (· != '>') ++ if t.closed then ['>'] else []

/-- The tags of a text, each with its column and the text from there on. A tag goes up to the next
closing bracket, and `inside` says whether the text begins within one. -/
def tagsFrom (t : TagForm) (inside : Bool) (column : Nat) : List Char → List (Nat × List Char)
  | [] => []
  | c :: rest =>
    if inside then t.tagsFrom (c != '>') (column + 1) rest
    else if t.opens (c :: rest) then (column, c :: rest) :: t.tagsFrom true (column + 1) rest
    else t.tagsFrom false (column + 1) rest

/-- The tags of a line from left to right. -/
def tags (t : TagForm) (line : Line) : List (Nat × List Char) := t.tagsFrom false 1 line

theorem text_cons (t : TagForm) {c : Char} (hc : c ≠ '>') (rest : List Char) :
    t.text (c :: rest) = c :: t.text rest := by
  simp [text, hc]

theorem le_of_mem_tagsFrom {t : TagForm} {inside : Bool} {column : Nat} {cs : List Char}
    {tag : Nat × List Char} (h : tag ∈ t.tagsFrom inside column cs) : column ≤ tag.1 := by
  induction cs generalizing inside column with
  | nil => cases h
  | cons c rest ih =>
    have hlater {inside : Bool} (h : tag ∈ t.tagsFrom inside (column + 1) rest) : column ≤ tag.1 :=
      Nat.le_of_succ_le (ih h)
    rw [tagsFrom] at h
    split at h
    · exact hlater h
    · split at h
      · rcases List.mem_cons.1 h with rfl | h
        · exact Nat.le_refl _
        · exact hlater h
      · exact hlater h

theorem pairwise_tagsFrom (t : TagForm) (inside : Bool) (column : Nat) (cs : List Char) :
    (t.tagsFrom inside column cs).Pairwise (·.1 < ·.1) := by
  induction cs generalizing inside column with
  | nil => exact .nil
  | cons c rest ih =>
    rw [tagsFrom]
    split
    · exact ih ..
    · split
      · exact .cons (fun tag h => Nat.lt_of_succ_le (le_of_mem_tagsFrom h)) (ih ..)
      · exact ih ..

theorem pairwise_tags (t : TagForm) (line : Line) : (t.tags line).Pairwise (·.1 < ·.1) :=
  pairwise_tagsFrom ..

end TagForm

namespace Markup

variable {s e m : Place} {line : Line}

/-! ### The names of tags -/

/-- A name whose letters have no other forms than their two cases, and which ends in a letter. -/
structure PlainName (start : String) : Prop where
  plain : start.toList.all fun l => l != 's' && l != 'k' && l != '>'
  last : ∃ l ∈ start.toList.getLast?, l.isAlpha

theorem PlainName.of_mem {start : String} (h : PlainName start) {l : Char} (hl : l ∈ start.toList) :
    l ≠ 's' ∧ l ≠ 'k' ∧ l ≠ '>' := by
  have := List.all_eq_true.1 h.plain l hl
  simpa [and_assoc] using this

theorem isLetter_iff {l c : Char} (hs : l ≠ 's') (hk : l ≠ 'k') : isLetter l c ↔ c.toLower = l := by
  simp [isLetter, hs, hk]

theorem forall₂_isLetter_iff {ls cs : List Char} (hplain : ∀ l ∈ ls, l ≠ 's' ∧ l ≠ 'k') :
    List.Forall₂ (fun l c => isLetter l c) ls cs ↔ cs.map Char.toLower = ls := by
  induction ls generalizing cs with
  | nil => simp
  | cons l ls ih =>
    obtain ⟨⟨hs, hk⟩, hplain⟩ := List.forall_mem_cons.1 hplain
    cases cs with
    | nil => simp
    | cons c cs =>
      rw [List.forall₂_cons, isLetter_iff hs hk, ih hplain, List.map_cons, List.cons.injEq]

theorem ends_name_iff {start : String} (h : PlainName start) :
    Ends (wordAnyCase start) s m ↔
      ∃ cs, s.Passes cs m ∧ cs.map Char.toLower = start.toList := by
  have hplain : ∀ l ∈ start.toList, l ≠ 's' ∧ l ≠ 'k' := fun l hl =>
    ⟨(h.of_mem hl).1, (h.of_mem hl).2.1⟩
  constructor
  · intro hends
    obtain ⟨cs, hpass, hall⟩ := hends.of_wordAnyCase
    exact ⟨cs, hpass, (forall₂_isLetter_iff hplain).1 hall⟩
  · rintro ⟨cs, hpass, hlower⟩
    exact ends_inOrder_one ((forall₂_isLetter_iff hplain).2 hlower) hpass

theorem isAlpha_of_toLower {c : Char} (h : c.toLower.isAlpha) : c.isAlpha := by
  unfold Char.toLower at h
  split at h
  · rename_i hupper
    have hupper : c.isUpper = true := decide_eq_true hupper
    show (c.isUpper || c.isLower) = true
    rw [hupper, Bool.true_or]
  · exact h

theorem isWord_of_isAlpha {c : Char} (h : c.isAlpha) : isWord c := by
  have hascii : c.toNat < 128 := by
    have hcase : (c.isUpper || c.isLower) = true := h
    rcases Bool.or_eq_true_iff.1 hcase with hupper | hlower
    · have hbounds : 65 ≤ c.toNat ∧ c.toNat ≤ 90 := of_decide_eq_true hupper
      omega
    · have hbound : c.toNat ≤ 122 := of_decide_eq_true (Bool.and_eq_true_iff.1 hlower).2
      omega
  rw [isWord_of_ascii hascii, isAsciiWord, Char.isAlphanum, h]
  rfl

/-- A name ends in a word character, so none follows at an edge. -/
theorem atEdge_iff {start : String} (h : PlainName start) {cs : List Char} (hpass : s.Passes cs m)
    (hlower : cs.map Char.toLower = start.toList) : m.atEdge ↔ m.rest.head?.any isWord = false := by
  have hbefore : m.before.any isWord := by
    obtain ⟨last, hlast, halpha⟩ := h.last
    rw [← hlower, List.getLast?_map, Option.mem_def, Option.map_eq_some_iff] at hlast
    obtain ⟨c, hc, rfl⟩ := hlast
    rw [hpass.before, hc]
    exact isWord_of_isAlpha (isAlpha_of_toLower halpha)
  rw [Place.atEdge, hbefore]
  simp

theorem opensTag_iff {start : String} (h : PlainName start) :
    Ends (wordAnyCase start) s m ∧ m.atEdge ↔
      opensTag start s.rest ∧ s.Passes (s.rest.take start.toList.length) m := by
  rw [ends_name_iff h]
  constructor
  · rintro ⟨⟨cs, hpass, hlower⟩, hedge⟩
    have hlength : start.toList.length = cs.length := by rw [← hlower, List.length_map]
    have hafter := (atEdge_iff h hpass hlower).1 hedge
    have htake : s.rest.take start.toList.length = cs := by
      rw [hpass.rest, hlength, List.take_left]
    refine ⟨?_, htake ▸ hpass⟩
    rw [opensTag, htake, hlower, hpass.rest, hlength, List.drop_left, hafter]
    simp
  · rintro ⟨hopens, hpass⟩
    simp only [opensTag, Bool.and_eq_true, beq_iff_eq, Bool.not_eq_true'] at hopens
    obtain ⟨hlower, hafter⟩ := hopens
    refine ⟨⟨_, hpass, hlower⟩, (atEdge_iff h hpass hlower).2 ?_⟩
    have hrest : m.rest = s.rest.drop start.toList.length :=
      List.append_cancel_left (hpass.rest.symm.trans (List.take_append_drop _ _).symm)
    rw [hrest, hafter]

/-- No bracket closes a tag within its name. -/
theorem not_mem_name {start : String} (h : PlainName start) {cs : List Char}
    (hopens : opensTag start cs) : '>' ∉ cs.take start.toList.length := by
  intro hmem
  simp only [opensTag, Bool.and_eq_true, beq_iff_eq] at hopens
  refine (h.of_mem (l := '>') ?_).2.2 rfl
  rw [← hopens.1]
  exact List.mem_map.2 ⟨'>', hmem, rfl⟩

theorem exists_cons_of_opensTag {start : String} (h : PlainName start) {cs : List Char}
    (hopens : opensTag start cs) : ∃ c rest, cs = c :: rest ∧ c ≠ '>' := by
  obtain ⟨last, hlast, -⟩ := h.last
  obtain ⟨k, hk⟩ : ∃ k, start.toList.length = k + 1 :=
    Nat.exists_eq_succ_of_ne_zero (Nat.ne_of_gt (List.length_pos_of_mem
      (List.mem_of_getLast? hlast)))
  have hname := not_mem_name h hopens
  cases cs with
  | nil =>
    simp only [opensTag, List.take_nil, List.map_nil, Bool.and_eq_true, beq_iff_eq] at hopens
    rw [← hopens.1] at hk
    cases hk
  | cons c rest =>
    refine ⟨c, rest, rfl, ?_⟩
    rintro rfl
    rw [hk] at hname
    exact hname List.mem_cons_self

/-- The place after the name of a tag. -/
theorem exists_named {start : String} (h : PlainName start) (hopens : opensTag start s.rest) :
    ∃ m, Ends (wordAnyCase start) s m ∧ m.atEdge ∧
      s.rest = s.rest.take start.toList.length ++ m.rest := by
  obtain ⟨m, hpass, -⟩ :=
    Place.exists_passes (List.take_append_drop start.toList.length s.rest).symm
  obtain ⟨hends, hedge⟩ := (opensTag_iff h).2 ⟨hopens, hpass⟩
  exact ⟨m, hends, hedge, hpass.rest⟩

/-- What stands in a tag is its name and what follows that up to the closing bracket. -/
theorem passes_inside {start : String} (h : PlainName start) (hname : Ends (wordAnyCase start) s m)
    (hedge : m.atEdge) (hinside : m.Passes (m.rest.takeWhile (· != '>')) e) :
    s.Passes (s.rest.takeWhile (· != '>')) e := by
  obtain ⟨hopens, hpass⟩ := (opensTag_iff h).1 ⟨hname, hedge⟩
  have hwhile : s.rest.takeWhile (· != '>') =
      s.rest.take start.toList.length ++ m.rest.takeWhile (· != '>') := by
    conv => lhs; rw [hpass.rest]
    exact List.takeWhile_append_of_pos (bne_of_not_mem (not_mem_name h hopens))
  exact hwhile ▸ hpass.trans hinside

/-! ### The patterns for tags -/

/-- A pattern matches just where a tag opens, and there it passes the tag. -/
structure Recognizes (a : Pattern) (t : TagForm) : Prop where
  name : PlainName t.start
  isSome_matchAt : ∀ s, (a.matchAt s).isSome = t.opens s.rest
  passes : ∀ {m : Match}, a.matchAt m.start = some m → m.start.Passes (t.text m.start.rest) m.stop

def image : TagForm := ⟨"<img", false⟩

def button : TagForm := ⟨"<button", true⟩

theorem plainName_image : PlainName "<img" := ⟨by decide +kernel, 'g', by decide +kernel, by decide⟩

theorem plainName_button : PlainName "<button" :=
  ⟨by decide +kernel, 'n', by decide +kernel, by decide⟩

theorem recognizes_imageTag : Recognizes imageTag image where
  name := plainName_image
  isSome_matchAt s := by
    have hopens : image.opens s.rest = opensTag "<img" s.rest := Bool.and_true _
    rw [hopens, Bool.eq_iff_iff, isSome_matchAt_iff]
    constructor
    · rintro ⟨e, h⟩
      obtain ⟨m, hname, h⟩ := ends_inOrder_cons_iff.1 h
      obtain ⟨m', hedge, -⟩ := ends_inOrder_cons_iff.1 h
      cases hedge with
      | edge hedge => exact ((opensTag_iff plainName_image).1 ⟨hname, hedge⟩).1
    · intro h
      obtain ⟨m, hname, hedge, -⟩ := exists_named plainName_image h
      exact ⟨m, .both hname (.both (.edge hedge) .manyStop)⟩
  passes {m} h := by
    obtain ⟨-, hstop⟩ := matchAt_eq_some h
    obtain ⟨m₁, hname, hstop⟩ := head?_ends_both hstop
    obtain ⟨m₂, hedge, hstop⟩ := head?_ends_both hstop
    obtain ⟨e, he, hinside, -⟩ := head?_ends_many (· != '>') m₂
    obtain rfl : e = m.stop := Option.some.inj (he.symm.trans hstop)
    cases hedge with
    | edge hedge =>
      have htext : image.text m.start.rest = m.start.rest.takeWhile (· != '>') := List.append_nil _
      exact htext ▸ passes_inside plainName_image hname hedge hinside

/-- The tag of a button: its name, what follows up to the first closing bracket, and the bracket. -/
theorem ends_buttonOpen_iff : Ends buttonOpen s e ↔ ∃ m m', Ends (wordAnyCase "<button") s m ∧
    m.atEdge ∧ m.Passes (m.rest.takeWhile (· != '>')) m' ∧ m'.Passes ['>'] e := by
  constructor
  · intro h
    obtain ⟨m, hname, h⟩ := ends_inOrder_cons_iff.1 h
    obtain ⟨_, hname, hedge⟩ := ends_both_iff.1 hname
    obtain ⟨m', hinside, hclose⟩ := ends_inOrder_cons_iff.1 h
    obtain ⟨inside, hopen, hinside⟩ := ends_many_iff.1 hinside
    obtain ⟨c, hc, hclose⟩ := hclose.of_one
    obtain rfl : c = '>' := by simpa using hc
    have hwhile : m.rest.takeWhile (· != '>') = inside := by
      rw [hinside.rest, hclose.rest, List.takeWhile_append_of_pos hopen]
      simp
    cases hedge with
    | edge hedge => exact ⟨m, m', hname, hedge, hwhile ▸ hinside, hclose⟩
  · rintro ⟨m, m', hname, hedge, hinside, hclose⟩
    have hopen : ∀ c ∈ m.rest.takeWhile (· != '>'), (c != '>') = true :=
      List.all_eq_true.1 List.all_takeWhile
    exact .both (.both hname (.edge hedge)) (.both (ends_many_iff.2 ⟨_, hopen, hinside⟩)
      (ends_one_of_passes (beq_self_eq_true _) hclose))

theorem recognizes_buttonOpen : Recognizes buttonOpen button where
  name := plainName_button
  isSome_matchAt s := by
    rw [Bool.eq_iff_iff, isSome_matchAt_iff, TagForm.opens, Bool.and_eq_true]
    constructor
    · rintro ⟨e, h⟩
      obtain ⟨m, m', hname, hedge, hinside, hclose⟩ := ends_buttonOpen_iff.1 h
      refine ⟨((opensTag_iff plainName_button).1 ⟨hname, hedge⟩).1, ?_⟩
      show s.rest.contains '>'
      rw [((passes_inside plainName_button hname hedge hinside).trans hclose).rest]
      simp
    · rintro ⟨hopens, hclosed⟩
      have hclosed : '>' ∈ s.rest := by simpa [button] using hclosed
      obtain ⟨m, hname, hedge, hrest⟩ := exists_named plainName_button hopens
      have hmem : '>' ∈ m.rest := by
        rw [hrest] at hclosed
        exact (List.mem_append.1 hclosed).resolve_left (not_mem_name plainName_button hopens)
      obtain ⟨inside, after, hafter, hopen⟩ := List.eq_append_cons_of_mem hmem
      have hwhile : m.rest.takeWhile (· != '>') = inside := by
        rw [hafter, List.takeWhile_append_of_pos (bne_of_not_mem hopen)]
        simp
      obtain ⟨m', hinside, hbracket⟩ := Place.exists_passes hafter
      have hbracket : m'.rest = ['>'] ++ after := hbracket
      obtain ⟨e, hclose, -⟩ := Place.exists_passes hbracket
      exact ⟨e, ends_buttonOpen_iff.2 ⟨m, m', hname, hedge, hwhile ▸ hinside, hclose⟩⟩
  passes {m} h := by
    obtain ⟨p, p', hname, hedge, hinside, hclose⟩ := ends_buttonOpen_iff.1 (ends_of_matchAt h)
    exact (passes_inside plainName_button hname hedge hinside).trans hclose

/-! ### Successive tags -/

section Tags

variable {a : Pattern} {t : TagForm}

theorem Recognizes.exists_cons (h : Recognizes a t) {cs : List Char} (hopens : t.opens cs) :
    ∃ c rest, cs = c :: rest ∧ c ≠ '>' ∧ (t.closed → '>' ∈ rest) := by
  simp only [TagForm.opens, Bool.and_eq_true, Bool.or_eq_true, Bool.not_eq_true',
    List.contains_iff_mem] at hopens
  obtain ⟨c, rest, rfl, hc⟩ := exists_cons_of_opensTag h.name hopens.1
  refine ⟨c, rest, rfl, hc, fun hclosed => ?_⟩
  rcases hopens.2 with hnot | hmem
  · rw [hclosed] at hnot
    cases hnot
  · exact (List.mem_cons.1 hmem).resolve_left hc.symm

/-- How far a search for tags has come at a place: within a tag it goes on at the end of the tag, and
outside of the tags it may go on at once. -/
inductive Progress (t : TagForm) (free : Nat) (s : Place) : Bool → Prop
  | inside (hfree : free = s.offset + byteLength (t.text s.rest))
      (hclosed : t.closed → '>' ∈ s.rest) : Progress t free s true
  | outside (hfree : free ≤ s.offset) : Progress t free s false

/-- Within a tag each character but the closing bracket leads on within it. -/
theorem Progress.next_of_inside {free : Nat} {c : Char} {rest : List Char}
    (h : Progress t free s true) (hs : s.rest = c :: rest) :
    Progress t free (s.next c rest) (c != '>') := by
  obtain ⟨rfl, hclosed⟩ := h
  rw [hs] at hclosed ⊢
  by_cases hc : c = '>'
  · subst c
    refine .outside ?_
    have hone : byteLength ['>'] = '>'.utf8Size := rfl
    cases hform : t.closed <;> simp [TagForm.text, hform, Place.next, byteLength, hone]
  · rw [bne_iff_ne.2 hc]
    refine .inside ?_ fun h => (List.mem_cons.1 (hclosed h)).resolve_left (Ne.symm hc)
    rw [t.text_cons hc, byteLength]
    simp only [Place.next]
    omega

/-- Only a closing bracket that does not belong to its tag is looked at, and no tag opens there. -/
theorem Recognizes.matchAt_of_inside (h : Recognizes a t) {free : Nat}
    (hprogress : Progress t free s true) (hfree : free ≤ s.offset) : a.matchAt s = none := by
  rw [← Option.not_isSome_iff_eq_none, h.isSome_matchAt]
  intro hopens
  obtain ⟨c, rest, hs, hc, -⟩ := h.exists_cons hopens
  obtain ⟨rfl, -⟩ := hprogress
  rw [hs, t.text_cons hc, byteLength] at hfree
  have hpos := c.utf8Size_pos
  omega

/-- The matches from a place on are at the tags from there on. -/
theorem map_findAllFrom (h : Recognizes a t) {line passed : List Char} {inside : Bool} {free : Nat}
    (hs : (Place.start line).Passes passed s) (hprogress : Progress t free s inside) :
    (a.findAllFrom free s.before s.offset s.rest).map
        (fun m => (columnOf line m.start.offset, m.start.rest)) =
      t.tagsFrom inside (passed.length + 1) s.rest := by
  obtain ⟨before, offset, cs⟩ := s
  induction cs generalizing passed before offset inside free with
  | nil => rfl
  | cons c rest ih =>
    have hnext := hs.trans (Place.passes_next ⟨before, offset, c :: rest⟩ rfl)
    have hlater {inside : Bool} {free : Nat}
        (hprogress : Progress t free ⟨some c, offset + c.utf8Size, rest⟩ inside) :
        (a.findAllFrom free (some c) (offset + c.utf8Size) rest).map
            (fun m => (columnOf line m.start.offset, m.start.rest)) =
          t.tagsFrom inside (passed.length + 1 + 1) rest := by
      rw [ih _ _ hnext hprogress, List.length_append, List.length_singleton]
    have hopens := h.isSome_matchAt ⟨before, offset, c :: rest⟩
    rw [Pattern.findAllFrom, TagForm.tagsFrom]
    cases inside with
    | true =>
      have hprogress' := hprogress.next_of_inside rfl
      rw [if_pos rfl]
      split
      · exact hlater hprogress'
      · rename_i hfree
        rw [h.matchAt_of_inside hprogress (Nat.not_lt.1 hfree)]
        exact hlater hprogress'
    | false =>
      cases hprogress with
      | outside hfree =>
      have hfree : free ≤ offset := hfree
      rw [if_neg (Nat.not_lt.2 hfree), if_neg Bool.false_ne_true]
      cases hmatch : a.matchAt ⟨before, offset, c :: rest⟩ with
      | none =>
        rw [hmatch, Option.isSome_none] at hopens
        rw [if_neg (by simp [← hopens])]
        exact hlater (.outside (Nat.le_trans hfree (Nat.le_add_right _ _)))
      | some m =>
        rw [hmatch, Option.isSome_some] at hopens
        obtain ⟨_, _, hcs, hc, hclosed⟩ := h.exists_cons hopens.symm
        obtain ⟨rfl, rfl⟩ := List.cons.inj hcs
        obtain ⟨hstart, -⟩ := matchAt_eq_some hmatch
        have hstop : m.stop.offset = offset + c.utf8Size + byteLength (t.text rest) := by
          rw [(h.passes (hstart ▸ hmatch)).offset, hstart, t.text_cons hc, byteLength, Nat.add_assoc]
        have hmoves : offset < m.stop.offset := by
          have := c.utf8Size_pos
          omega
        simp only [hmoves, if_true]
        rw [if_pos hopens.symm, List.map_cons, hstart, columnOf_of_passes hs,
          hlater (.inside hstop hclosed)]

/-- The successive matches in a line are at its tags. -/
theorem map_findAll (h : Recognizes a t) (line : Line) :
    (a.findAll line).map (fun m => (columnOf line m.start.offset, m.start.rest)) = t.tags line :=
  map_findAllFrom h (.refl _) (.outside (Nat.le_refl _))

example : (image.tags "<a><IMG src=x <img><img".toList).map (·.1) = [4, 20] := by decide +kernel

/-! ### Faulty tags -/

/-- Whether the image with which a text begins has no alternative text. -/
def lacksAlt (cs : List Char) : Bool := !altAttribute.occursIn (image.text cs)

/-- Whether the button with which a text begins has no name, given the lines after it. -/
def lacksName (rest : List Line) (cs : List Char) : Bool :=
  !(ariaLabel.occursIn (buttonAttributes (button.text cs)) ||
    hasVisibleText (cs.drop (button.text cs).length) rest)

/-- What is found at the matches is found at the tags. -/
theorem columns_findAll (h : Recognizes a t) {line : Line} {find : Match → Option Finding}
    {faulty : List Char → Bool}
    (hfind : ∀ m, m.text = t.text m.start.rest →
      m.stop.rest = m.start.rest.drop (t.text m.start.rest).length →
      (find m).map Finding.column =
        if faulty m.start.rest then some (some (columnOf line m.start.offset)) else none) :
    ((a.findAll line).filterMap find).map Finding.column =
      ((t.tags line).filter fun tag => faulty tag.2).map fun tag => some tag.1 := by
  have hmatch : ∀ m ∈ a.findAll line, (find m).map Finding.column =
      if faulty m.start.rest then some (some (columnOf line m.start.offset)) else none := by
    intro m hm
    obtain ⟨-, -, hat⟩ := mem_findAll hm
    obtain ⟨htext, hrest⟩ := Match.text_of_passes (h.passes hat)
    exact hfind m htext hrest
  rw [← map_findAll h, List.filter_map, List.map_map, List.map_filterMap,
    List.filterMap_congr hmatch]
  clear hmatch
  induction a.findAll line with
  | nil => rfl
  | cons m ms ih => cases hm : faulty m.start.rest <;> simp [hm, ih]

theorem columns_imageWithoutAlt (line : Line) :
    ((imageTag.findAll line).filterMap (imageWithoutAlt line)).map Finding.column =
      ((image.tags line).filter fun tag => lacksAlt tag.2).map fun tag => some tag.1 := by
  refine columns_findAll recognizes_imageTag fun m htext _ => ?_
  rw [imageWithoutAlt, htext, lacksAlt]
  cases altAttribute.occursIn (image.text m.start.rest) <;> rfl

theorem columns_namelessButton (line : Line) (rest : List Line) :
    ((buttonOpen.findAll line).filterMap (namelessButton line rest)).map Finding.column =
      ((button.tags line).filter fun tag => lacksName rest tag.2).map fun tag => some tag.1 := by
  refine columns_findAll recognizes_buttonOpen fun m htext hrest => ?_
  rw [namelessButton, htext, hrest, lacksName]
  split
  · rename_i hnamed
    simp [hnamed]
  · rename_i hnamed
    simp [hnamed]

end Tags

end Markup

end CodeCoach.Review
