import CodeCoach.Proofs.Pattern.Language
import CodeCoach.Proofs.Review.Security
import CodeCoach.Proofs.Review.Tag

/-!
# Lines of texts and elements

A line of markup is put together from texts without angle brackets and from elements.  The tags of
the line are then those of its elements, and whether an attribute is given can be read off what
stands between the brackets.

* `startsAnyCase`, `assigns`, `anyAfter`: a word in any case, an attribute with its sign, and what
  stands after a character of a class;
* `Piece`, a text or an element, `lineOf`, the line that pieces make, and `elements`, the elements
  among them with their columns;
* `tagsFrom_bracketed`: the tags from an opening bracket on;
* `columns_lineOf`: the faulty tags of a line are at its faulty elements;
* `columns_accessibility_warning`, `columns_accessibility_info`: the columns of the issues.
-/

namespace CodeCoach.Review

open Text Pattern

namespace Markup

variable {word name : String} {a b cs rest inside : List Char} {x : Char} {l : List Pattern}

/-! ### Words in any case -/

/-- Whether a text begins with a word, given in lower case, where letters may be capitals. -/
def startsAnyCase (word : String) (cs : List Char) : Bool := startsWith word (cs.map Char.toLower)

theorem startsAnyCase_iff : startsAnyCase word cs ↔
    ∃ u v, cs = u ++ v ∧ u.map Char.toLower = word.toList := by
  rw [startsAnyCase, startsWith_iff_prefix]
  constructor
  · rintro ⟨v, h⟩
    obtain ⟨u, w, rfl, hu, -⟩ := List.map_eq_append_iff.1 h
    exact ⟨u, w, rfl, hu⟩
  · rintro ⟨u, v, rfl, hu⟩
    exact ⟨v.map Char.toLower, by rw [List.map_append, hu]⟩

/-- Whether a text begins with a word is settled before any character that is not in the word. -/
theorem startsAnyCase_append_cons (hx : x.toLower ∉ word.toList) (a b : List Char) :
    startsAnyCase word (a ++ x :: b) = startsAnyCase word a := by
  rw [startsAnyCase, List.map_append, List.map_cons, startsWith_append_cons hx, startsAnyCase]

/-- What is no letter in lower case has no other case. -/
theorem toLower_eq_self (hx : x.toLower.isAlpha = false) : x.toLower = x := by
  have hlower : x.toLower.isLower = false := (Bool.or_eq_false_iff.1 hx).2
  unfold Char.toLower at hlower ⊢
  split
  · rcases Bool.and_eq_false_iff.1 hlower with h | h <;>
    · have := of_decide_eq_false h
      grind [UInt32.toNat_add, UInt32.le_iff_toNat_le]
  · rfl

/-- A word that begins with an opening bracket begins nowhere else. -/
theorem startsAnyCase_eq_false (hword : word.toList.head? = some '<') (hx : x ≠ '<')
    (cs : List Char) : startsAnyCase word (x :: cs) = false := by
  rw [Bool.eq_false_iff, ne_eq, startsAnyCase, startsWith_iff_prefix]
  rintro ⟨v, h⟩
  obtain ⟨w, hw⟩ := List.head?_eq_some_iff.1 hword
  rw [hw] at h
  have hlower : x.toLower = '<' := (List.cons.inj h).1
  exact hx ((toLower_eq_self (hlower ▸ by decide)).symm.trans hlower)

/-- Whether no letter of a word has other forms than its two cases. -/
def isTwoCased (word : String) : Bool := word.toList.all fun l => l != 's' && l != 'k'

theorem leads_wordAnyCase_iff (hword : isTwoCased word) : Leads (wordAnyCase word :: l) cs ↔
    startsAnyCase word cs ∧ Leads l (cs.drop word.toList.length) := by
  have hplain : ∀ l ∈ word.toList, l ≠ 's' ∧ l ≠ 'k' := by simpa [isTwoCased] using hword
  rw [leads_wordAnyCase_cons_iff, startsAnyCase_iff]
  simp only [forall₂_isLetter_iff hplain]
  constructor
  · rintro ⟨u, v, rfl, hu, hv⟩
    refine ⟨⟨u, v, rfl, hu⟩, ?_⟩
    rwa [← hu, List.length_map, List.drop_left]
  · rintro ⟨⟨u, v, rfl, hu⟩, hv⟩
    refine ⟨u, v, rfl, hu, ?_⟩
    rwa [← hu, List.length_map, List.drop_left] at hv

/-! ### Attributes -/

/-- Whether a text begins with an attribute and the sign of its value. -/
def assigns (name : String) (cs : List Char) : Bool :=
  startsAnyCase name cs && startsWith "=" (trimStart (cs.drop name.toList.length))

theorem leads_assigns_iff (hname : isTwoCased name) :
    Leads [wordAnyCase name, blanks, char '='] cs ↔ assigns name cs := by
  have hsign (v : List Char) : Leads [char '='] v ↔ startsWith "=" v := leads_char_iff rfl
  rw [leads_wordAnyCase_iff hname, leads_blanks_char_iff (by decide), hsign, assigns,
    Bool.and_eq_true]

/-- Whether after some character of a class the text goes on as asked. -/
def anyAfter (p : Char → Bool) (q : List Char → Bool) : List Char → Bool
  | [] => false
  | c :: rest => p c && q rest || anyAfter p q rest

variable {p : Char → Bool} {q : List Char → Bool}

theorem anyAfter_iff : anyAfter p q cs ↔ ∃ a c b, cs = a ++ c :: b ∧ p c ∧ q b := by
  induction cs with
  | nil => simp [anyAfter]
  | cons c cs ih =>
    rw [anyAfter, Bool.or_eq_true, Bool.and_eq_true, ih]
    constructor
    · rintro (⟨hc, hq⟩ | ⟨a, d, b, rfl, hd, hq⟩)
      · exact ⟨[], c, cs, rfl, hc, hq⟩
      · exact ⟨c :: a, d, b, rfl, hd, hq⟩
    · rintro ⟨a, d, b, h, hd, hq⟩
      cases a with
      | nil =>
        obtain ⟨rfl, rfl⟩ := List.cons.inj h
        exact .inl ⟨hd, hq⟩
      | cons _ a =>
        obtain ⟨rfl, rfl⟩ := List.cons.inj h
        exact .inr ⟨a, d, b, rfl, hd, hq⟩

theorem anyAfter_append (ha : ∀ c ∈ a, p c = false) : anyAfter p q (a ++ b) = anyAfter p q b := by
  induction a with
  | nil => rfl
  | cons c a ih =>
    obtain ⟨hc, ha⟩ := List.forall_mem_cons.1 ha
    rw [List.cons_append, anyAfter, hc, Bool.false_and, Bool.false_or, ih ha]

/-! ### Pieces of a line -/

/-- A text without angle brackets. -/
structure Unbracketed (cs : List Char) : Prop where
  opening : '<' ∉ cs
  closing : '>' ∉ cs

instance (cs : List Char) : Decidable (Unbracketed cs) :=
  decidable_of_iff ('<' ∉ cs ∧ '>' ∉ cs) ⟨fun h => ⟨h.1, h.2⟩, fun h => ⟨h.1, h.2⟩⟩

theorem Unbracketed.append (ha : Unbracketed a) (hb : Unbracketed b) : Unbracketed (a ++ b) :=
  ⟨by simp [ha.opening, hb.opening], by simp [ha.closing, hb.closing]⟩

/-- A text in angle brackets. -/
def bracketed (inside : List Char) : List Char := '<' :: (inside ++ ['>'])

theorem bracketed_append (inside rest : List Char) :
    bracketed inside ++ rest = '<' :: (inside ++ '>' :: rest) := by
  simp [bracketed]

@[simp] theorem length_bracketed (inside : List Char) :
    (bracketed inside).length = inside.length + 2 := by
  simp [bracketed]

theorem startsAnyCase_bracketed {start : String} (hstart : start.toList = '<' :: word.toList)
    (hword : '>' ∉ word.toList) (inside rest : List Char) :
    startsAnyCase start (bracketed inside ++ rest) = startsAnyCase word inside := by
  rw [← startsAnyCase_append_cons (x := '>') hword inside rest, bracketed_append, startsAnyCase,
    startsAnyCase, startsWith, startsWith, hstart]
  exact Bool.true_and _

/-- The attributes of a tag: nothing, or what is set off by a blank. -/
structure IsAttributes (cs : List Char) : Prop where
  unbracketed : Unbracketed cs
  head : ∀ c ∈ cs.head?, c = ' '

instance (cs : List Char) : Decidable (IsAttributes cs) :=
  decidable_of_iff (Unbracketed cs ∧ cs.head?.all (· == ' '))
    ⟨fun h => ⟨h.1, fun c hc => eq_of_beq ((Option.all_eq_true ..).1 h.2 c hc)⟩,
      fun h => ⟨h.1, (Option.all_eq_true ..).2 fun c hc => beq_iff_eq.2 (h.2 c hc)⟩⟩

theorem IsAttributes.any_isWord (h : IsAttributes cs) : cs.head?.any isWord = false := by
  cases cs with
  | nil => rfl
  | cons c cs =>
    obtain rfl : c = ' ' := h.head c rfl
    show isWord ' ' = false
    decide

/-- A part of a line: a text without angle brackets, or an element. -/
inductive Piece (α : Type)
  | text (cs : List Char) (unbracketed : Unbracketed cs)
  | element (x : α)

variable {α : Type}

/-- What a piece is in the line, where `write` says so for the elements. -/
def Piece.write (write : α → List Char) : Piece α → List Char
  | text cs _ => cs
  | element x => write x

/-- The line that pieces make. -/
def lineOf (write : α → List Char) (pieces : List (Piece α)) : List Char :=
  pieces.flatMap (Piece.write write)

/-- The elements among the pieces of a line, each with its column. -/
def elements (write : α → List Char) (column : Nat) : List (Piece α) → List (Nat × α)
  | [] => []
  | .text cs _ :: pieces => elements write (column + cs.length) pieces
  | .element x :: pieces => (column, x) :: elements write (column + (write x).length) pieces

variable {write : α → List Char}

theorem lineOf_cons (write : α → List Char) (piece : Piece α) (pieces : List (Piece α)) :
    lineOf write (piece :: pieces) = piece.write write ++ lineOf write pieces := rfl

/-! ### Tags of a line -/

theorem opensTag_eq (start : String) (cs : List Char) :
    opensTag start cs = (startsAnyCase start cs &&
      !(cs.drop start.toList.length).head?.any isWord) := by
  rw [opensTag, startsAnyCase, startsWith, List.map_take]
  congr 1
  rw [Bool.eq_iff_iff, beq_iff_eq, List.isPrefixOf_iff_prefix, List.prefix_iff_eq_take, eq_comm]

variable {t : TagForm} {column : Nat}

/-- No tag begins in a text without opening brackets. -/
theorem tagsFrom_append (hstart : t.start.toList.head? = some '<') (ha : '<' ∉ a) :
    t.tagsFrom false column (a ++ rest) = t.tagsFrom false (column + a.length) rest := by
  induction a generalizing column with
  | nil => rfl
  | cons c a ih =>
    have hc := List.ne_of_not_mem_cons ha
    have hopens : t.opens (c :: (a ++ rest)) = false := by
      rw [TagForm.opens, opensTag_eq, startsAnyCase_eq_false hstart (Ne.symm hc)]
      rfl
    rw [List.cons_append, TagForm.tagsFrom, if_neg Bool.false_ne_true, if_neg (by simp [hopens]),
      ih (List.not_mem_of_not_mem_cons ha), List.length_cons, Nat.add_assoc, Nat.add_comm 1]

/-- A tag goes on up to its closing bracket. -/
theorem tagsFrom_inside (ha : '>' ∉ a) :
    t.tagsFrom true column (a ++ '>' :: rest) = t.tagsFrom false (column + (a.length + 1)) rest := by
  induction a generalizing column with
  | nil => rfl
  | cons c a ih =>
    have hc := List.ne_of_not_mem_cons ha
    rw [List.cons_append, TagForm.tagsFrom, if_pos rfl, bne_iff_ne.2 (Ne.symm hc),
      ih (List.not_mem_of_not_mem_cons ha), List.length_cons]
    congr 1
    omega

/-- The tags from an opening bracket on. -/
theorem tagsFrom_bracketed (hstart : t.start.toList.head? = some '<') (h : Unbracketed inside) :
    t.tagsFrom false column (bracketed inside ++ rest) =
      (if t.opens (bracketed inside ++ rest) then [(column, bracketed inside ++ rest)] else []) ++
        t.tagsFrom false (column + (bracketed inside).length) rest := by
  rw [length_bracketed, bracketed_append, TagForm.tagsFrom, if_neg Bool.false_ne_true]
  split
  · rw [tagsFrom_inside h.closing, List.singleton_append]
    congr 2
    omega
  · have hopening : '<' ∉ inside ++ ['>'] := by simp [h.opening]
    rw [List.append_cons, tagsFrom_append hstart hopening, List.length_append, List.length_singleton,
      List.nil_append]
    congr 1
    omega

theorem text_bracketed (t : TagForm) (h : Unbracketed inside) (rest : List Char) :
    t.text (bracketed inside ++ rest) = '<' :: (inside ++ if t.closed then ['>'] else []) := by
  have hopen : ∀ c ∈ '<' :: inside, (c != '>') = true :=
    bne_of_not_mem (by simp [h.closing])
  rw [TagForm.text, bracketed_append, ← List.cons_append, List.takeWhile_append_of_pos hopen,
    List.takeWhile_cons_of_neg (by simp), List.append_nil, List.cons_append]

/-- What opens a tag in brackets is the name there. -/
theorem opens_bracketed (hstart : t.start.toList = '<' :: name.toList) (hname : '>' ∉ name.toList)
    (inside rest : List Char) : t.opens (bracketed inside ++ rest) = opensTag name inside := by
  have hclosed : (bracketed inside ++ rest).contains '>' := by simp [bracketed]
  rw [TagForm.opens, hclosed, Bool.or_true, Bool.and_true, opensTag_eq, opensTag_eq,
    startsAnyCase_bracketed hstart hname, bracketed_append, hstart, List.length_cons,
    List.drop_succ_cons]
  cases hstarts : startsAnyCase name inside with
  | false => rfl
  | true =>
    obtain ⟨u, v, rfl, hu⟩ := startsAnyCase_iff.1 hstarts
    rw [← hu, List.length_map, List.append_assoc, List.drop_left, List.drop_left]
    cases v with
    | nil => rfl
    | cons => rfl

/-- Where the faulty tags of each element are at its beginning, or nowhere, those of a line are at
its faulty elements. -/
theorem columns_lineOf {faulty : List Char → Bool} {bad : α → Bool}
    (hstart : t.start.toList.head? = some '<')
    (helement : ∀ column x rest, ∃ own,
      t.tagsFrom false column (write x ++ rest) =
        own ++ t.tagsFrom false (column + (write x).length) rest ∧
      (own.filter fun tag => faulty tag.2).map (fun tag => some tag.1) =
        if bad x then [some column] else []) (column : Nat) (pieces : List (Piece α)) :
    ((t.tagsFrom false column (lineOf write pieces)).filter fun tag => faulty tag.2).map
        (fun tag => some tag.1) =
      ((elements write column pieces).filter fun x => bad x.2).map fun x => some x.1 := by
  induction pieces generalizing column with
  | nil => rfl
  | cons piece pieces ih =>
    rw [lineOf_cons]
    cases piece with
    | text cs h => rw [Piece.write, tagsFrom_append hstart h.opening, ih, elements]
    | element x =>
      obtain ⟨own, htags, hown⟩ := helement column x (lineOf write pieces)
      rw [Piece.write, htags, List.filter_append, List.map_append, hown, ih, elements,
        List.filter_cons]
      split <;> rfl

end Markup

/-! ### Issues about accessibility -/

/-- The issues about accessibility with the given severity. -/
def accessibility (severity : Severity) (issues : List Issue) : List Issue :=
  issues.filter fun i => i.kind == .accessibility && i.severity == severity

section Columns

variable {d : Document} {n : Nat} {line : Line}

/-- The issues about accessibility with one severity are those of one rule. -/
theorem columns_accessibility {severity : Severity} (r : Rule)
    (hrule : (Family.ruleOrder .markup).filter
      (fun r => r.kind == .accessibility && r.severity == severity) = [r])
    (hfamily : Family.ofTag d.languageTag = .markup)
    (hline : (linesOf d.text)[n]? = some line) :
    (accessibility severity (onLine (n + 1) (ofDocument d))).map (·.location.column) =
      (r.findings (JavaScript.usesAsync (linesOf d.text)) (JavaScript.isTestPath d.path) line
        ((linesOf d.text).drop (n + 1))).map Finding.column := by
  have hissues := filter_onLine_ofDocument hfamily hline rfl fun kind s =>
    kind == .accessibility && s == severity
  rw [accessibility, hissues, hrule, List.flatMap_singleton, List.map_map]
  rfl

theorem columns_accessibility_warning (hfamily : Family.ofTag d.languageTag = .markup)
    (hline : (linesOf d.text)[n]? = some line) :
    (accessibility .warning (onLine (n + 1) (ofDocument d))).map (·.location.column) =
      ((Markup.image.tags line).filter fun tag => Markup.lacksAlt tag.2).map
        fun tag => some tag.1 :=
  (columns_accessibility .imageWithoutAlt rfl hfamily hline).trans
    (Markup.columns_imageWithoutAlt line)

theorem columns_accessibility_info (hfamily : Family.ofTag d.languageTag = .markup)
    (hline : (linesOf d.text)[n]? = some line) :
    (accessibility .info (onLine (n + 1) (ofDocument d))).map (·.location.column) =
      ((Markup.button.tags line).filter fun tag =>
        Markup.lacksName ((linesOf d.text).drop (n + 1)) tag.2).map fun tag => some tag.1 :=
  (columns_accessibility .namelessButton rfl hfamily hline).trans
    (Markup.columns_namelessButton line _)

end Columns

end CodeCoach.Review
