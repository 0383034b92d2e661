import CodeCoach.Proofs.Review.Chain
import CodeCoach.Proofs.Review.Order

/-!
# The remedy for an unguarded chain

The remedy for an unguarded chain is the chain with a question mark before each dot.  Where it is put
for the chain the rule is content with the line, and the literals of the line stay what they are.

* `JavaScript.exists_chain_of_unguardedAccess`: the chain stands outside the literals of the line, at
  the column that is given;
* `JavaScript.unguardedAccess_guarded`: the remedy is a guard itself;
* `JavaScript.literals_access`: neither the chain nor the remedy has a part in a literal;
* `JavaScript.remedy_settles`: so it is for every issue about a chain.
-/

namespace CodeCoach.Review.JavaScript

open Text Pattern

variable {line before after root : List Char} {links : List (List Char)} {dot : String}

/-- The chain of which the rule speaks stands outside the literals, at the column that is given. -/
theorem exists_chain_of_unguardedAccess {f : Finding}
    (h : unguardedAccess line (mask line) = some f) :
    ∃ before root links after, IsChain root links ∧
      line = before ++ (access "." root links ++ after) ∧
      Outside (access "." root links ++ after) before ∧
      f = aboutChain (access "." root links) (before.length + 1) := by
  rw [unguardedAccess_eq] at h
  obtain ⟨m, hm, rfl⟩ := Option.map_eq_some_iff.1 h
  obtain ⟨before, root, links, after, hchain, htext, hline, hoffset, hout⟩ :=
    exists_chain_of_mem_findAll (mem_findAll_of_unguardedChain hm)
  refine ⟨before, root, links, after, hchain, hline, hout, ?_⟩
  rw [htext, columnOf, hoffset, hline, charsWithin_append]

/-- Access to the links of a chain is no part of a literal where it stands outside of them. -/
theorem literals_access (h : IsChain root links) (hdot : Inert dot.toList)
    (hout : Outside (access dot root links ++ after) before) :
    literals (before ++ (access dot root links ++ after)) = literals before ++
      (literals after).map fun l => (before ++ (access dot root links ++ l.1), l.2) := by
  have hplain : ∀ c ∈ access dot root links, isQuote c = false := fun c hc =>
    (inert_access h hdot c hc).1
  rw [hout.literals_append, literals_append hplain, List.map_map]
  rfl

/-- The remedy for a chain is a guard itself. -/
theorem unguardedAccess_guarded (h : IsChain root links)
    (hout : Outside (access "?." root links ++ after) before) (line : Line) :
    unguardedAccess line (mask (before ++ (access "?." root links ++ after))) = none := by
  have hplain : ∀ c ∈ access "?." root links, isQuote c = false := fun c hc =>
    (inert_access h (by decide) c hc).1
  have hguard : "?." ∈ nullGuards := by decide
  refine unguardedAccess_of_guard hguard ?_
  rw [hout.mask_append, mask_append hplain, contains_iff_infix]
  obtain ⟨l, links, rfl⟩ := h.exists_cons
  exact ⟨mask before ++ root, l ++ links.flatMap ("?.".toList ++ ·) ++ mask after, by simp [access]⟩

/-- Where a chain of which the rule speaks is exchanged for its remedy, the rule is content with the
line, and the literals of the line are those it had. -/
theorem remedy_settles {d : Document} (hfamily : Family.ofTag d.languageTag = .javaScript)
    {i : Issue} (hi : i ∈ ofDocument d) (hreports : Rule.unguardedAccess.reports i) :
    ∃ n before chain fixed after, i.location.line = n + 1 ∧
      (linesOf d.text)[n]? = some (before ++ (chain ++ after)) ∧
      i.location.column = some (before.length + 1) ∧
      i.message = "Unguarded property access `" ++ String.ofList chain ++
        "` may throw if a link is null or undefined" ∧
      i.remedy = some ("Use optional chaining: `" ++ String.ofList fixed ++ "`") ∧
      fixed = replaceAll '.' ['?', '.'] chain ∧ fixed.filter (· != '?') = chain ∧
      literals (before ++ (chain ++ after)) = literals before ++
        (literals after).map (fun l => (before ++ (chain ++ l.1), l.2)) ∧
      literals (before ++ (fixed ++ after)) = literals before ++
        (literals after).map (fun l => (before ++ (fixed ++ l.1), l.2)) ∧
      ∀ e : Document, Family.ofTag e.languageTag = .javaScript →
        ∀ m, (linesOf e.text)[m]? = some (before ++ (fixed ++ after)) →
          ∀ j ∈ onLine (m + 1) (ofDocument e), ¬ Rule.unguardedAccess.reports j := by
  obtain ⟨n, line, hline, f, hf, rfl⟩ := exists_finding_of_reports hfamily (by decide) hi hreports
  obtain ⟨before, root, links, after, hchain, rfl, hout, rfl⟩ :=
    exists_chain_of_unguardedAccess (Option.mem_toList.1 hf)
  have hfixed : Outside (access "?." root links ++ after) before :=
    hout.exchange (inert_access hchain (by decide)) hchain.access_ne_nil
      (inert_access hchain (by decide)) hchain.access_ne_nil
  refine ⟨n, before, access "." root links, access "?." root links, after, rfl, hline, rfl, rfl,
    ?_, (guarded_access hchain).symm, filter_access hchain, literals_access hchain (by decide) hout,
    literals_access hchain (by decide) hfixed, ?_⟩
  · rw [← guarded_access hchain]
    rfl
  · intro e hfamily m hline j hj hreports
    obtain ⟨hj, hm⟩ := List.mem_filter.1 hj
    obtain ⟨n, line, hline', f, hf, rfl⟩ := exists_finding_of_reports hfamily (by decide) hj hreports
    obtain rfl : n = m := Nat.succ.inj (eq_of_beq hm)
    obtain rfl := Option.some.inj (hline'.symm.trans hline)
    have hnone := unguardedAccess_guarded hchain hfixed
    rw [Rule.findings, hnone] at hf
    cases hf

/-- A line with an escaped quote and two chains, of which the first one is given. -/
def twoChains (chain : String) : Document :=
  ⟨"f('it\\'s', " ++ chain ++ ", a.b.c)", "js", "a.js"⟩

theorem remedy_settles_twoChains :
    (∃ i ∈ ofDocument (twoChains "user.profile.name"), Rule.unguardedAccess.reports i) ∧
      ∀ j ∈ onLine 1 (ofDocument (twoChains "user?.profile?.name")),
        ¬ Rule.unguardedAccess.reports j := by
  have hany : (ofDocument (twoChains "user.profile.name")).any fun i =>
      Rule.unguardedAccess.reports i && i.location.column == some 12 &&
        i.remedy == some "Use optional chaining: `user?.profile?.name`" := by decide +kernel
  obtain ⟨i, hi, hform⟩ := List.any_eq_true.1 hany
  simp only [Bool.and_eq_true, beq_iff_eq] at hform
  obtain ⟨⟨hreports, hcolumn⟩, hremedy⟩ := hform
  obtain ⟨n, before, chain, fixed, after, -, hline, hcolumn', -, hremedy', -, hfixed, -, -, hsettled⟩ :=
    remedy_settles (by decide +kernel) hi hreports
  have hlines : linesOf (twoChains "user.profile.name").text =
      ["f('it\\'s', ".toList ++ ("user.profile.name".toList ++ ", a.b.c)".toList)] := by
    decide +kernel
  rw [hlines] at hline
  have hsplit := List.mem_singleton.1 (List.mem_of_getElem? hline)
  obtain ⟨rfl, hrest⟩ := List.append_inj hsplit
    (Nat.succ.inj (Option.some.inj (hcolumn'.symm.trans hcolumn)))
  obtain rfl : fixed = "user?.profile?.name".toList := by
    have htext := congrArg String.toList (Option.some.inj (hremedy'.symm.trans hremedy))
    have hquoted : "Use optional chaining: `".toList ++ (fixed ++ "`".toList) =
        "Use optional chaining: `".toList ++ ("user?.profile?.name".toList ++ "`".toList) := by
      simpa using htext
    exact List.append_cancel_right (List.append_cancel_left hquoted)
  obtain rfl : "user.profile.name".toList = chain := hfixed ▸ by decide
  obtain rfl := List.append_cancel_left hrest
  exact ⟨⟨i, hi, hreports⟩, hsettled _ (by decide +kernel) 0 (by decide +kernel)⟩

end CodeCoach.Review.JavaScript
