import CodeCoach.Proofs.Pattern.Language
import CodeCoach.Proofs.Review.Outside
import CodeCoach.Proofs.Review.Tag
import CodeCoach.Review.JavaScript

/-!
# Chains of property accesses

A chain is a name with at least two links, each a name behind a dot.  The remedy for an unguarded
chain has a question mark before each dot.

* `JavaScript.IsName`, `JavaScript.IsChain`, `JavaScript.access`, the parts of a chain and its text;
* `JavaScript.exists_access_of_mem_language`: the pattern for chains passes chains, and
  `JavaScript.exists_chain_of_mem_findAll`: they stand outside the literals;
* `JavaScript.guarded_access`, `JavaScript.filter_access`: between a chain and its remedy there are
  only question marks;
* `JavaScript.inert_access`: neither of them can do anything to a literal;
* `JavaScript.aboutChain`, what the rule says of a chain.
-/

namespace CodeCoach.Review.JavaScript

open Text Pattern

/-! ### Names and chains -/

/-- A name as the rule for chains reads it. -/
def IsName (name : List Char) : Prop :=
  ∃ c rest, name = c :: rest ∧ isIdentStart c ∧ ∀ d ∈ rest, isIdentPart d

instance : DecidablePred IsName
  | [] => isFalse (by simp [IsName])
  | c :: rest =>
    decidable_of_iff (isIdentStart c && rest.all isIdentPart) (by simp [IsName])

/-- The parts of a chain: its root and at least two links. -/
structure IsChain (root : List Char) (links : List (List Char)) : Prop where
  isName_root : IsName root
  isName_link : ∀ l ∈ links, IsName l
  two_le_length : 2 ≤ links.length

instance (root : List Char) (links : List (List Char)) : Decidable (IsChain root links) :=
  decidable_of_iff (IsName root ∧ (∀ l ∈ links, IsName l) ∧ 2 ≤ links.length)
    ⟨fun ⟨hroot, hlinks, htwo⟩ => ⟨hroot, hlinks, htwo⟩,
      fun ⟨hroot, hlinks, htwo⟩ => ⟨hroot, hlinks, htwo⟩⟩

/-- The access to the links one after the other, each behind `dot`. -/
def access (dot : String) (root : List Char) (links : List (List Char)) : List Char :=
  root ++ links.flatMap (dot.toList ++ ·)

variable {c : Char} {name root : List Char} {links : List (List Char)} {dot : String}

/-- A dollar sign may begin a name, though it is no word character. -/
theorem isWord_of_isIdentStart (h : isIdentStart c) (hdollar : c ≠ '$') : isWord c := by
  simp only [isIdentStart, Bool.or_eq_true, beq_iff_eq] at h
  rcases h with (halpha | rfl) | rfl
  · exact Markup.isWord_of_isAlpha halpha
  · decide
  · exact absurd rfl hdollar

theorem isIdentPart_of_isIdentStart (h : isIdentStart c) : isIdentPart c := by
  by_cases hdollar : c = '$'
  · subst hdollar
    decide
  · rw [isIdentPart, isWord_of_isIdentStart h hdollar, Bool.true_or]

theorem IsName.isIdentPart_of_mem (h : IsName name) (hc : c ∈ name) : isIdentPart c := by
  obtain ⟨d, rest, rfl, hd, hrest⟩ := h
  rcases List.mem_cons.1 hc with rfl | hc
  · exact isIdentPart_of_isIdentStart hd
  · exact hrest c hc

theorem IsChain.mem_access (h : IsChain root links) (hc : c ∈ access dot root links) :
    isIdentPart c ∨ c ∈ dot.toList := by
  rcases List.mem_append.1 hc with hc | hc
  · exact .inl (h.isName_root.isIdentPart_of_mem hc)
  · obtain ⟨l, hl, hc⟩ := List.mem_flatMap.1 hc
    rcases List.mem_append.1 hc with hc | hc
    · exact .inr hc
    · exact .inl ((h.isName_link l hl).isIdentPart_of_mem hc)

/-- A character that is in no name is in a chain only if it belongs to its dots. -/
theorem IsChain.not_mem_access (h : IsChain root links) (hpart : isIdentPart c = false)
    (hdot : c ∉ dot.toList) : c ∉ access dot root links := fun hc =>
  (h.mem_access hc).elim (fun hc => by simp [hpart] at hc) hdot

theorem IsChain.exists_cons (h : IsChain root links) : ∃ l later, links = l :: later :=
  List.exists_cons_of_length_pos (Nat.zero_lt_of_lt h.two_le_length)

theorem IsChain.access_ne_nil (h : IsChain root links) : access dot root links ≠ [] := by
  obtain ⟨c, rest, rfl, -, -⟩ := h.isName_root
  exact List.cons_ne_nil _ _

/-! ### Literals -/

/-- A chain could stand in any literal. -/
theorem inert_access (h : IsChain root links) (hdot : Inert dot.toList) :
    Inert (access dot root links) := by
  intro c hc
  rcases h.mem_access hc with hpart | hc
  · refine ⟨Bool.eq_false_iff.2 fun hquote => ?_, ?_, ?_⟩
    · rcases isQuote_cases hquote with rfl | rfl | rfl <;> exact absurd hpart (by decide)
    · rintro rfl
      exact absurd hpart (by decide)
    · rintro rfl
      exact absurd hpart (by decide)
  · exact hdot c hc

/-! ### Question marks -/

theorem guarded_append (a b : List Char) : guarded (a ++ b) = guarded a ++ guarded b :=
  List.flatMap_append

theorem guarded_name (h : IsName name) : guarded name = name := by
  have hdots : ∀ c ∈ name, (if (c == '.') = true then ['?', '.'] else [c]) = [c] := by
    intro c hc
    have hne : c ≠ '.' := by
      rintro rfl
      exact absurd (h.isIdentPart_of_mem hc) (by decide)
    simp [hne]
  rw [guarded, replaceAll, List.flatMap_congr hdots]
  exact List.flatMap_singleton' name

/-- The remedy for a chain is the access to the same links with a question mark before each dot. -/
theorem guarded_access (h : IsChain root links) :
    guarded (access "." root links) = access "?." root links := by
  rw [access, access, guarded_append, guarded_name h.isName_root]
  congr 1
  have hlinks := h.isName_link
  clear h
  induction links with
  | nil => rfl
  | cons l links ih =>
    obtain ⟨hl, hlinks⟩ := List.forall_mem_cons.1 hlinks
    rw [List.flatMap_cons, List.flatMap_cons, guarded_append, guarded_append, guarded_name hl,
      ih hlinks]
    rfl

theorem filter_name (h : IsName name) : name.filter (· != '?') = name :=
  List.filter_eq_self.2 (bne_of_not_mem fun hc => absurd (h.isIdentPart_of_mem hc) (by decide))

/-- Without its question marks the remedy for a chain is the chain. -/
theorem filter_access (h : IsChain root links) :
    (access "?." root links).filter (· != '?') = access "." root links := by
  rw [access, access, List.filter_append, filter_name h.isName_root, List.filter_flatMap]
  refine congrArg (root ++ ·) (List.flatMap_congr fun l hl => ?_)
  rw [List.filter_append, filter_name (h.isName_link l hl)]
  rfl

/-! ### The pattern for chains -/

theorem isName_of_mem_language (h : name ∈ identifier.language) : IsName name := by
  obtain ⟨_, ⟨c, hc, rfl⟩, rest, hrest, rfl⟩ := Language.mem_mul.1 h
  exact ⟨c, rest, rfl, hc, hrest⟩

theorem exists_name_of_mem_language (h : name ∈ link.language) :
    ∃ l, IsName l ∧ name = ".".toList ++ l := by
  obtain ⟨_, ⟨c, hc, rfl⟩, l, hl, rfl⟩ := Language.mem_mul.1 h
  exact ⟨l, isName_of_mem_language hl, by rw [eq_of_beq hc]; rfl⟩

theorem exists_links_of_mem_kstar (h : name ∈ KStar.kstar link.language) :
    ∃ links : List (List Char), (∀ l ∈ links, IsName l) ∧
      name = links.flatMap (".".toList ++ ·) := by
  obtain ⟨parts, hname, hparts⟩ := Language.mem_kstar.1 h
  subst hname
  clear h
  induction parts with
  | nil => exact ⟨[], by simp, rfl⟩
  | cons part parts ih =>
    obtain ⟨hpart, hlater⟩ := List.forall_mem_cons.1 hparts
    obtain ⟨l, hl, hpart⟩ := exists_name_of_mem_language hpart
    obtain ⟨links, hlinks, hrest⟩ := ih hlater
    refine ⟨l :: links, List.forall_mem_cons.2 ⟨hl, hlinks⟩, ?_⟩
    rw [List.flatten_cons, hpart, hrest, List.flatMap_cons]

/-- The pattern for chains passes chains. -/
theorem exists_access_of_mem_language (h : name ∈ propertyChain.language) :
    ∃ root links, IsChain root links ∧ name = access "." root links := by
  have h : name ∈ 1 * (identifier.language * (link.language *
    (link.language * KStar.kstar link.language))) := h
  rw [one_mul] at h
  obtain ⟨root, hroot, _, hlinks, rfl⟩ := Language.mem_mul.1 h
  obtain ⟨_, hfirst, _, hlater, rfl⟩ := Language.mem_mul.1 hlinks
  obtain ⟨_, hsecond, _, hmore, rfl⟩ := Language.mem_mul.1 hlater
  obtain ⟨first, hfirstName, rfl⟩ := exists_name_of_mem_language hfirst
  obtain ⟨second, hsecondName, rfl⟩ := exists_name_of_mem_language hsecond
  obtain ⟨links, hnames, rfl⟩ := exists_links_of_mem_kstar hmore
  refine ⟨root, first :: second :: links, ⟨isName_of_mem_language hroot, ?_, by simp⟩, rfl⟩
  exact List.forall_mem_cons.2 ⟨hfirstName, List.forall_mem_cons.2 ⟨hsecondName, hnames⟩⟩

/-- What the pattern finds in a mask is a chain that stands outside the literals of the line. -/
theorem exists_chain_of_mem_findAll {line : Line} {m : Match}
    (h : m ∈ propertyChain.findAll (mask line)) :
    ∃ before root links after, IsChain root links ∧ m.text = access "." root links ∧
      line = before ++ (access "." root links ++ after) ∧ m.start.offset = byteLength before ∧
      Outside (access "." root links ++ after) before := by
  obtain ⟨passed, hpass, hat⟩ := mem_findAll h
  obtain ⟨hlanguage, htext⟩ := text_mem_language hat
  obtain ⟨root, links, hchain, hm⟩ := exists_access_of_mem_language hlanguage
  have hblank : ' ' ∉ access "." root links := hchain.not_mem_access (by decide) (by decide)
  have hmask : mask line = passed ++ (access "." root links ++ m.stop.rest) := by
    rw [← hm, ← htext.rest]
    exact hpass.rest
  obtain ⟨before, after, hline, hbytes, hout, -⟩ :=
    exists_outside_of_mask hchain.access_ne_nil hblank hmask
  exact ⟨before, root, links, after, hchain, hm, hline,
    (Place.offset_of_passes_start hpass).trans hbytes.symm, hout⟩

/-! ### The rule for chains -/

/-- What is said of an unguarded chain. -/
def aboutChain (chain : List Char) (column : Nat) : Finding where
  kind := .bug
  severity := .warning
  message := "Unguarded property access `" ++ String.ofList chain ++
    "` may throw if a link is null or undefined"
  remedy := some ("Use optional chaining: `" ++ String.ofList (guarded chain) ++ "`")
  column := some column

variable {line code : Line} {m : Match}

theorem unguardedAccess_eq : unguardedAccess line code =
    (unguardedChain code).map fun m => aboutChain m.text (columnOf line m.start.offset) :=
  rfl

theorem mem_findAll_of_unguardedChain (h : unguardedChain code = some m) :
    m ∈ propertyChain.findAll code := by
  rw [unguardedChain] at h
  split at h
  · cases h
  · exact List.mem_of_find?_eq_some h

/-- Nothing is said about a line with a guard. -/
theorem unguardedAccess_of_guard {guard : String} (hguard : guard ∈ nullGuards)
    (h : contains guard code) : unguardedAccess line code = none := by
  have hany : nullGuards.any fun g => contains g code := List.any_eq_true.2 ⟨guard, hguard, h⟩
  rw [unguardedAccess_eq, unguardedChain, hany]
  rfl

end CodeCoach.Review.JavaScript
