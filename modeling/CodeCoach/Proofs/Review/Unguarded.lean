import CodeCoach.Proofs.Pattern.Preferred
import CodeCoach.Proofs.Review.Chain
import CodeCoach.Proofs.Review.Concatenation
import CodeCoach.Proofs.Review.Security

/-!
# Declarations with a chain

The rule for unguarded chains takes the whole of a chain, as far as it goes.  It begins at a word
boundary, though, and a dollar sign is no word character: where the root of a chain begins with one
the chain is not seen from its beginning.

* `JavaScript.prefers_access`: the pattern for chains prefers the whole chain;
* `JavaScript.findAll_declaration`: in a declaration nothing else matches it;
* `JavaScript.chain_flagged`: what the rule says about declarations whose value is a chain.
-/

namespace CodeCoach.Review.JavaScript

open Text Pattern

variable {name root : List Char} {links : List (List Char)} {s e : Place}

/-! ### Whole chains -/

/-- No chain goes on with the text. -/
def EndsChain (rest : List Char) : Prop := ∀ c ∈ rest.head?, isIdentPart c = false ∧ c ≠ '.'

theorem endsChain_cons {c : Char} (hpart : isIdentPart c = false) (hdot : c ≠ '.')
    (rest : List Char) : EndsChain (c :: rest) := by
  intro d hd
  obtain rfl : c = d := Option.some.inj hd
  exact ⟨hpart, hdot⟩

theorem prefers_identifier (h : IsName name) (hstop : ∀ c ∈ e.rest.head?, isIdentPart c = false)
    (hpass : s.Passes name e) : Prefers identifier s e := by
  obtain ⟨c, rest, rfl, hc, hrest⟩ := h
  obtain ⟨m, hfirst, hmore⟩ := Place.Passes.of_append (a := [c]) hpass
  exact (prefers_one hc hfirst).both (prefers_many hrest hstop hmore)

theorem prefers_link (h : IsName name) (hstop : ∀ c ∈ e.rest.head?, isIdentPart c = false)
    (hpass : s.Passes (".".toList ++ name) e) : Prefers link s e := by
  obtain ⟨m, hdot, hname⟩ := hpass.of_append
  have hchar : Prefers (char '.') s m := prefers_one rfl hdot
  exact hchar.both (prefers_identifier h hstop hname)

/-- Links begin with a dot, so no name goes on with them. -/
theorem isIdentPart_head_links (hstop : EndsChain e.rest)
    (hpass : s.Passes (links.flatMap (".".toList ++ ·)) e) :
    ∀ c ∈ s.rest.head?, isIdentPart c = false := by
  rw [hpass.rest]
  cases links with
  | nil => exact fun c hc => (hstop c hc).1
  | cons l links =>
    rintro c hc
    obtain rfl : '.' = c := Option.some.inj hc
    decide

theorem prefers_links (h : ∀ l ∈ links, IsName l) (hstop : EndsChain e.rest)
    (hpass : s.Passes (links.flatMap (".".toList ++ ·)) e) : Prefers (repeated link) s e := by
  induction links generalizing s with
  | nil =>
    obtain rfl := (Place.Passes.refl s).eq hpass
    refine prefers_repeated_stop fun e hends => ?_
    obtain ⟨m, hdot, -⟩ := ends_both_iff.1 hends
    obtain ⟨c, hc, hfirst⟩ := hdot.of_one
    exact (hstop c (by rw [hfirst.rest]; rfl)).2 (eq_of_beq hc)
  | cons l links ih =>
    obtain ⟨hl, hlinks⟩ := List.forall_mem_cons.1 h
    obtain ⟨m, hfirst, hlater⟩ := hpass.of_append
    refine (prefers_link hl (isIdentPart_head_links hstop hlater) hfirst).repeated ?_
      (ih hlinks hlater)
    rw [hfirst.rest, List.length_append]
    exact Nat.lt_add_of_pos_left (Nat.succ_pos _)

/-- The pattern for chains prefers the whole chain. -/
theorem prefers_access (h : IsChain root links) (hedge : s.atEdge) (hstop : EndsChain e.rest)
    (hpass : s.Passes (access "." root links) e) : Prefers propertyChain s e := by
  obtain ⟨hroot, hlinks, htwo⟩ := h
  obtain ⟨first, links, rfl⟩ := List.exists_cons_of_length_pos (Nat.zero_lt_of_lt htwo)
  obtain ⟨second, links, rfl⟩ := List.exists_cons_of_length_pos (Nat.lt_of_succ_lt_succ htwo)
  obtain ⟨hfirst, hlinks⟩ := List.forall_mem_cons.1 hlinks
  obtain ⟨hsecond, hlinks⟩ := List.forall_mem_cons.1 hlinks
  obtain ⟨r, hpassRoot, hpassLinks⟩ := hpass.of_append
  obtain ⟨f, hpassFirst, hpassLater⟩ := hpassLinks.of_append
  obtain ⟨t, hpassSecond, hpassMore⟩ := hpassLater.of_append
  have hroot : Prefers identifier s r :=
    prefers_identifier hroot (isIdentPart_head_links hstop hpassLinks) hpassRoot
  have hfirst : Prefers link r f :=
    prefers_link hfirst (isIdentPart_head_links hstop hpassLater) hpassFirst
  have hsecond : Prefers link f t :=
    prefers_link hsecond (isIdentPart_head_links hstop hpassMore) hpassSecond
  have hmore : Prefers (repeated link) t e := prefers_links hlinks hstop hpassMore
  exact (prefers_edge hedge).inOrder_cons (hroot.inOrder_cons (hfirst.inOrder_cons
    (hsecond.inOrder_cons hmore)))

/-- No chain begins where no dot comes before a character that is in no chain. -/
theorem matchAt_propertyChain_eq_none {u v : List Char} (hdot : '.' ∉ u) (hstop : EndsChain v)
    (hrest : s.rest = u ++ v) : propertyChain.matchAt s = none := by
  rw [← Option.not_isSome_iff_eq_none, isSome_matchAt_iff]
  rintro ⟨e, hends⟩
  obtain ⟨cs, hcs, hpass⟩ := hends.exists_mem_language
  obtain ⟨root, links, hchain, rfl⟩ := exists_access_of_mem_language hcs
  have hmem : '.' ∈ access "." root links := by
    obtain ⟨l, links, rfl⟩ := hchain.exists_cons
    simp [access]
  rcases List.append_eq_append_iff.1 (hpass.rest.symm.trans hrest) with ⟨z, rfl, -⟩ | ⟨z, hsplit, rfl⟩
  · exact hdot (List.mem_append_left z hmem)
  · rw [hsplit] at hmem
    cases z with
    | nil => exact hdot (by simpa using hmem)
    | cons d z =>
      obtain ⟨hpart, hne⟩ := hstop d rfl
      have hdots : d ∉ ".".toList := by simpa using hne
      exact hchain.not_mem_access hpart hdots (hsplit ▸ by simp)

/-! ### Chains in a declaration -/

/-- The declaration of `x` with the access to some links. -/
abbrev chainLine (root : List Char) (links : List (List Char)) : Line :=
  declaration "x".toList (access "." root links)

theorem chainLine_eq (root : List Char) (links : List (List Char)) :
    chainLine root links = "const x = ".toList ++ (access "." root links ++ [';']) := rfl

/-- No chain begins before the value. -/
theorem matchAt_before_value {u v rest : List Char} {t : Place}
    (hsplit : "const x = ".toList = u ++ v) (hv : v ≠ [])
    (ht : (Place.start ("const x = ".toList ++ rest)).Passes u t) :
    propertyChain.matchAt t = none := by
  have hrest : t.rest = v ++ rest := by
    have hline : "const x = ".toList ++ rest = u ++ t.rest := ht.rest
    rw [hsplit, List.append_assoc] at hline
    exact (List.append_cancel_left hline).symm
  -- Before the value there is a blank, and before the blank there is no dot.
  obtain ⟨w, d, rfl⟩ := List.eq_nil_or_concat' v |>.resolve_left hv
  have hlast : some d = some ' ' := by
    rw [← List.getLast?_concat (l := u ++ w), List.append_assoc, ← hsplit]
    rfl
  obtain rfl := Option.some.inj hlast
  have hdots : '.' ∉ "const x = ".toList := by decide
  have hstop : EndsChain (' ' :: rest) := endsChain_cons (by decide) (by decide) rest
  refine matchAt_propertyChain_eq_none (u := w) (fun hmem => ?_) hstop (by simpa using hrest)
  exact hdots (hsplit ▸ by simp [hmem])

/-- Whether a word boundary comes before the value of a declaration. -/
theorem atEdge_value {rest : List Char} (hpass : (Place.start ("const x = ".toList ++ rest)).Passes
    "const x = ".toList s) : s.atEdge = rest.head?.any isWord := by
  have hrest : s.rest = rest := (List.append_cancel_left hpass.rest).symm
  have hbefore : s.before = some ' ' := hpass.before
  have hblank : isWord ' ' = false := by decide
  rw [Place.atEdge, hrest, hbefore, Option.any_some, hblank, Bool.false_bne]

/-- The only chain of a declaration is its value, unless a dollar sign begins it. -/
theorem findAll_declaration (h : IsChain root links) (hroot : root.head? ≠ some '$') :
    ∃ m, propertyChain.findAll (chainLine root links) = [m] ∧ m.text = access "." root links ∧
      (Place.start (chainLine root links)).Passes "const x = ".toList m.start := by
  obtain ⟨s, hbefore, hvalue⟩ := Place.exists_passes (s := Place.start (chainLine root links))
    (chainLine_eq root links)
  obtain ⟨e, hchain, hend⟩ := Place.exists_passes hvalue
  obtain ⟨f, hafter, hnil⟩ := Place.exists_passes (s := e) (hend.trans (List.append_nil _).symm)
  have hstop : EndsChain [';'] := endsChain_cons (by decide) (by decide) []
  have hedge : s.atEdge := by
    obtain ⟨c, rest, rfl, hc, -⟩ := h.isName_root
    rw [atEdge_value hbefore]
    exact isWord_of_isIdentStart hc fun hdollar => hroot (hdollar ▸ rfl)
  have hprefers : Prefers propertyChain s e := prefers_access h hedge (hend.symm ▸ hstop) hchain
  have hne : access "." root links ≠ [] := h.access_ne_nil
  obtain ⟨c, cs, hcs⟩ := List.exists_cons_of_ne_nil hne
  refine ⟨⟨s, e⟩, ?_, (Match.text_of_passes hchain).1, hbefore⟩
  calc propertyChain.findAll (chainLine root links)
      = propertyChain.findAllFrom 0 s.before s.offset s.rest :=
        findAllFrom_skip hbefore fun u v t hsplit hv ht =>
          .inr (matchAt_before_value hsplit hv ht)
    _ = ⟨s, e⟩ :: propertyChain.findAllFrom e.offset e.before e.offset e.rest :=
        findAllFrom_hit (hcs ▸ hchain) (Nat.zero_le _) hprefers
    _ = ⟨s, e⟩ :: propertyChain.findAllFrom e.offset f.before f.offset f.rest := by
        refine congrArg _ (findAllFrom_skip hafter fun u v t hsplit hv ht => .inr ?_)
        rcases List.append_eq_singleton_iff.1 hsplit.symm with ⟨rfl, -⟩ | ⟨-, rfl⟩
        · rw [← (Place.Passes.refl e).eq ht]
          exact matchAt_propertyChain_eq_none (u := []) List.not_mem_nil hstop hend
        · exact absurd rfl hv
    _ = [⟨s, e⟩] := by
        rw [hnil]
        rfl

/-- Where a dollar sign begins the value, no chain is seen before what follows the sign. -/
theorem lt_length_of_findAll (hroot : root.head? = some '$') {m : Match}
    (hm : m ∈ propertyChain.findAll (chainLine root links)) :
    ∃ passed, (Place.start (chainLine root links)).Passes passed m.start ∧ 10 < passed.length := by
  obtain ⟨passed, hpass, hat⟩ := mem_findAll hm
  refine ⟨passed, hpass, Nat.lt_of_not_le fun hle => ?_⟩
  have hsplit : "const x = ".toList ++ (access "." root links ++ [';']) = passed ++ m.start.rest :=
    hpass.rest
  obtain ⟨v, hv⟩ : passed <+: "const x = ".toList :=
    List.prefix_of_prefix_length_le ⟨_, hsplit.symm⟩ (List.prefix_append _ _) hle
  by_cases hnil : v = []
  · -- Neither the blank before the dollar sign nor the sign is a word character.
    obtain rfl : passed = "const x = ".toList := by rw [← hv, hnil, List.append_nil]
    obtain ⟨_, hedge, -⟩ := ends_inOrder_cons_iff.1 (ends_of_matchAt hat)
    cases hedge with
    | edge hedge =>
      have hdollar : isWord '$' = false := by decide
      rw [atEdge_value hpass, access, List.append_assoc, List.head?_append, hroot] at hedge
      simp [hdollar] at hedge
  · rw [matchAt_before_value hv.symm hnil hpass] at hat
    cases hat

/-! ### The issues of a declaration -/

theorem mem_chainLine (h : IsChain root links) {c : Char} (hc : c ∈ chainLine root links) :
    isIdentPart c ∨ c ∈ " =.;".toList := by
  have hfront : ∀ c ∈ "const x = ".toList, isIdentPart c ∨ c ∈ " =.;".toList :=
    List.all_iff_forall_prop.1 (by decide)
  rw [chainLine_eq, List.mem_append, List.mem_append] at hc
  rcases hc with hc | hc | hc
  · exact hfront c hc
  · exact (h.mem_access hc).imp_right fun hc => by
      rw [List.mem_singleton.1 hc]
      decide
  · rw [List.mem_singleton.1 hc]
    decide

theorem not_mem_chainLine (h : IsChain root links) {c : Char} (hpart : isIdentPart c = false)
    (hc : c ∉ " =.;".toList) : c ∉ chainLine root links := fun hmem =>
  (mem_chainLine h hmem).elim (by simp [hpart]) hc

theorem mask_chainLine (h : IsChain root links) :
    mask (chainLine root links) = chainLine root links := by
  have hplain : ∀ c ∈ chainLine root links, isQuote c = false := by
    intro c hc
    refine Bool.eq_false_iff.2 fun hquote => ?_
    rcases isQuote_cases hquote with rfl | rfl | rfl <;>
    · exact not_mem_chainLine h (by decide) (by decide) hc
  simpa [mask, maskFrom] using mask_append hplain []

/-- A declaration with a chain has no guard. -/
theorem nullGuards_chainLine (h : IsChain root links) :
    nullGuards.any (fun g => contains g (chainLine root links)) = false := by
  have hsigns : ∀ g ∈ nullGuards, g = "typeof " ∨ "?&!".toList.any g.toList.contains := by decide
  have habsent : ∀ c ∈ "?&!".toList, isIdentPart c = false ∧ c ∉ " =.;".toList :=
    List.all_iff_forall_prop.1 (by decide)
  refine List.any_eq_false.2 fun g hg => Bool.eq_false_iff.1 ?_
  rcases hsigns g hg with rfl | hsign
  · -- After the last blank there is the value.
    have hchain : ' ' ∉ access "." root links := h.not_mem_access (by decide) (by decide)
    have hvalue : ' ' ∉ access "." root links ++ [';'] := by simpa using hchain
    rw [Bool.eq_false_iff, ne_eq, contains_iff_infix]
    intro hcontains
    have hfront : "typeof".toList ++ [' '] <:+: "const x = ".toList :=
      infix_of_concat_infix_append hvalue hcontains
    exact absurd hfront (by decide)
  · obtain ⟨c, hc, hmem⟩ := List.any_eq_true.1 hsign
    exact contains_eq_false (List.contains_iff_mem.1 hmem)
      (not_mem_chainLine h (habsent c hc).1 (habsent c hc).2)

theorem isModuleLine_chainLine (h : IsChain root links) :
    isModuleLine (chainLine root links) = false := by
  have hrequire : contains "require(" (chainLine root links) = false :=
    contains_eq_false (x := '(') (by decide) (not_mem_chainLine h (by decide) (by decide))
  have htrim : trimStart (chainLine root links) = chainLine root links := by
    rw [chainLine_eq]
    rfl
  rw [isModuleLine, htrim, hrequire, chainLine_eq]
  rfl

theorem unguardedChain_chainLine (h : IsChain root links) :
    unguardedChain (chainLine root links) = (propertyChain.findAll (chainLine root links)).find?
      fun m => !globalRoots.contains (String.ofList (chainRoot m.text)) := by
  rw [unguardedChain, nullGuards_chainLine h, isModuleLine_chainLine h]
  rfl

theorem chainRoot_access (h : IsChain root links) : chainRoot (access "." root links) = root := by
  have hdots : ∀ c ∈ root, (c != '.') = true :=
    bne_of_not_mem fun hc => absurd (h.isName_root.isIdentPart_of_mem hc) (by decide)
  obtain ⟨l, links, rfl⟩ := h.exists_cons
  rw [chainRoot, access, List.takeWhile_append_of_pos hdots]
  exact List.append_nil root

/-- What the rule says about a declaration with a chain that no dollar sign begins. -/
theorem unguardedAccess_chainLine (h : IsChain root links) (hroot : root.head? ≠ some '$') :
    unguardedAccess (chainLine root links) (chainLine root links) =
      if String.ofList root ∈ globalRoots then none
      else some (aboutChain (access "." root links) 11) := by
  obtain ⟨m, hfind, htext, hpass⟩ := findAll_declaration h hroot
  rw [unguardedAccess_eq, unguardedChain_chainLine h, hfind]
  split
  · rename_i hglobal
    simp [htext, chainRoot_access h, hglobal]
  · rename_i hglobal
    simp [htext, chainRoot_access h, hglobal, columnOf_of_passes hpass]

/-- A chain that is assigned to a variable gets one issue, about the whole of it and at its beginning,
unless its root is a global of the platform.  Where a dollar sign begins the chain, all that is said
is about what follows the sign. -/
theorem chain_flagged {d : Document} {n : Nat} (hfamily : Family.ofTag d.languageTag = .javaScript)
    (h : IsChain root links)
    (hline : (linesOf d.text)[n]? = some (declaration "x".toList (access "." root links))) :
    (String.ofList root ∈ globalRoots → bugs (onLine (n + 1) (ofDocument d)) = []) ∧
      (String.ofList root ∉ globalRoots → root.head? ≠ some '$' →
        bugs (onLine (n + 1) (ofDocument d)) =
          [{ kind := .bug
             severity := .warning
             location := ⟨d.path, n + 1, some 11⟩
             snippet := String.ofList (trim (declaration "x".toList (access "." root links)))
             message := "Unguarded property access `" ++ String.ofList (access "." root links) ++
               "` may throw if a link is null or undefined"
             remedy := some ("Use optional chaining: `" ++
               String.ofList (access "?." root links) ++ "`") }]) ∧
      (root.head? = some '$' → ∀ i ∈ bugs (onLine (n + 1) (ofDocument d)),
        ∃ c, i.location.column = some c ∧ 11 < c) := by
  have hcomment : isComment (mask ([] ++ chainLine root links)) = false :=
    isComment_declaration (by simp) "x".toList (access "." root links)
  rw [bugs_onLine hfamily hline hcomment, mask_chainLine h]
  refine ⟨fun hglobal => ?_, fun hglobal hroot => ?_, fun hroot => ?_⟩
  · have hglobals : ∀ s ∈ globalRoots, s.toList.head? ≠ some '$' := by decide
    have hroot : root.head? ≠ some '$' := by simpa using hglobals _ hglobal
    rw [unguardedAccess_chainLine h hroot, if_pos hglobal]
    rfl
  · rw [unguardedAccess_chainLine h hroot, if_neg hglobal, ← guarded_access h]
    rfl
  · intro i hi
    obtain ⟨f, hf, rfl⟩ := List.mem_map.1 hi
    rw [unguardedAccess_eq] at hf
    obtain ⟨m, hm, rfl⟩ := Option.map_eq_some_iff.1 (Option.mem_toList.1 hf)
    obtain ⟨passed, hpass, hlt⟩ := lt_length_of_findAll hroot (mem_findAll_of_unguardedChain hm)
    exact ⟨passed.length + 1, congrArg some (columnOf_of_passes hpass), Nat.succ_lt_succ hlt⟩

/-- Declarations with a chain of an own root, of a global one and of one with a dollar sign. -/
def threeChains : Document :=
  ⟨"const x = _a$.$b.c1;\nconst x = console.a.b;\nconst x = $a.b.c;", "ts", "a.ts"⟩

theorem chain_flagged_threeChains :
    (bugs (onLine 1 (ofDocument threeChains))).length = 1 ∧
      bugs (onLine 2 (ofDocument threeChains)) = [] ∧
        ∀ i ∈ bugs (onLine 3 (ofDocument threeChains)), i.location.column ≠ some 11 := by
  have hfamily : Family.ofTag threeChains.languageTag = .javaScript := by decide +kernel
  have hownLine : (linesOf threeChains.text)[0]? = some (declaration "x".toList
      (access "." "_a$".toList ["$b".toList, "c1".toList])) := by decide +kernel
  have hglobalLine : (linesOf threeChains.text)[1]? = some (declaration "x".toList
      (access "." "console".toList ["a".toList, "b".toList])) := by decide +kernel
  have hdollarLine : (linesOf threeChains.text)[2]? = some (declaration "x".toList
      (access "." "$a".toList ["b".toList, "c".toList])) := by decide +kernel
  have hown := chain_flagged hfamily (by decide) hownLine
  have hglobal := chain_flagged hfamily (by decide) hglobalLine
  have hdollar := chain_flagged hfamily (by decide) hdollarLine
  refine ⟨?_, hglobal.1 (by decide), fun i hi h => ?_⟩
  · rw [hown.2.1 (by decide) (by decide)]
    rfl
  · obtain ⟨c, hc, hlt⟩ := hdollar.2.2 (by decide) i hi
    cases hc.symm.trans h
    exact absurd hlt (by decide)

/-- A declaration with a chain whose root is a dollar sign. -/
def dollarRoot : Document := ⟨"const x = $.a.b;", "javascript", "src/app.js"⟩

theorem chain_missed_dollarRoot :
    Family.ofTag dollarRoot.languageTag = .javaScript ∧
      (linesOf dollarRoot.text)[0]? =
        some (declaration "x".toList (access "." "$".toList ["a".toList, "b".toList])) ∧
      IsChain "$".toList ["a".toList, "b".toList] ∧ "$" ∉ globalRoots ∧
      bugs (onLine 1 (ofDocument dollarRoot)) = [] := by
  decide +kernel

end CodeCoach.Review.JavaScript
