import CodeCoach.Frequency
import Mathlib.Data.List.Nodup

/-!
# The most severe issues

Two issues of a list may be equal, so an issue is told apart from others by its position.

* `Precedes`, the order in which issues are brought up: by severity, and equally severe ones by
  position;
* `Foremost`, the first ones of a list in that order;
* `exists_foremost`: they are what truncation keeps.
-/

namespace CodeCoach

/-- The issue at one position goes before the one at another: it is more severe, or equally severe
and earlier. -/
def Precedes (x y : Issue × Nat) : Prop :=
  y.1.severity.rank < x.1.severity.rank ∨ (x.1.severity = y.1.severity ∧ x.2 < y.2)

/-- The issues with their positions are the first `max` ones of a list in the order of
`Precedes`. -/
structure Foremost (max : Nat) (issues : List Issue) (kept : List (Issue × Nat)) : Prop where
  length : kept.length = min max issues.length
  nodup : kept.Nodup
  mem : ∀ x ∈ kept, issues[x.2]? = some x.1
  ordered : kept.Pairwise Precedes
  leftOut : ∀ x ∈ kept, ∀ y, issues[y.2]? = some y.1 → y ∉ kept → Precedes x y

/-- The comparison by which issues are sorted. -/
def noMilder (i j : Issue) : Bool := j.severity.rank ≤ i.severity.rank

theorem precedes_of_zipIdxLE {x y : Issue × Nat} (hne : x.2 ≠ y.2)
    (h : List.zipIdxLE noMilder x y = true) : Precedes x y := by
  have hle : y.1.severity.rank ≤ x.1.severity.rank := by
    by_contra hlt
    simp [List.zipIdxLE, noMilder, hlt] at h
  rcases Nat.lt_or_eq_of_le hle with hlt | heq
  · exact Or.inl hlt
  · -- Among equals the position decides.
    have hpos : x.2 ≤ y.2 := by simpa [List.zipIdxLE, noMilder, heq] using h
    exact Or.inr ⟨Severity.rank_inj.1 heq.symm, Nat.lt_of_le_of_ne hpos hne⟩

/-- All issues of a list with their positions, in the order in which they are brought up. -/
def ranked (issues : List Issue) : List (Issue × Nat) :=
  issues.zipIdx.mergeSort (List.zipIdxLE noMilder)

theorem map_fst_ranked (issues : List Issue) :
    (ranked issues).map Prod.fst = bySeverity issues := List.mergeSort_zipIdx

theorem mem_ranked {issues : List Issue} {x : Issue × Nat} :
    x ∈ ranked issues ↔ issues[x.2]? = some x.1 := by
  rw [ranked, List.mem_mergeSort, List.mem_zipIdx_iff_getElem?]

theorem nodup_positions (issues : List Issue) : ((ranked issues).map Prod.snd).Nodup := by
  rw [ranked, ((List.mergeSort_perm _ _).map Prod.snd).nodup_iff, List.zipIdx_map_snd]
  exact List.nodup_range' 1

theorem pairwise_ranked (issues : List Issue) : (ranked issues).Pairwise Precedes := by
  have hsorted : (ranked issues).Pairwise fun x y => List.zipIdxLE noMilder x y = true := by
    refine List.pairwise_mergeSort (List.zipIdxLE_trans ?_) (List.zipIdxLE_total ?_) _
    · intro i j k
      simp only [noMilder, decide_eq_true_eq]
      omega
    · intro i j
      simp only [noMilder, Bool.or_eq_true, decide_eq_true_eq]
      omega
  have hpositions : (ranked issues).Pairwise fun x y => x.2 ≠ y.2 :=
    List.pairwise_map.1 (nodup_positions issues)
  exact (hsorted.and hpositions).imp fun h => precedes_of_zipIdxLE h.2 h.1

/-- Truncation keeps the foremost issues. -/
theorem exists_foremost (issues : List Issue) (max : Nat) :
    ∃ kept, Foremost max issues kept ∧ truncateBySeverity issues max = kept.map Prod.fst := by
  have hsplit : (ranked issues).take max ++ (ranked issues).drop max = ranked issues :=
    List.take_append_drop max _
  have hordered := pairwise_ranked issues
  rw [← hsplit, List.pairwise_append] at hordered
  refine ⟨(ranked issues).take max, ⟨?_, ?_, ?_, hordered.1, ?_⟩, ?_⟩
  · simp [ranked]
  · exact ((nodup_positions issues).of_map _).sublist (List.take_sublist max _)
  · intro x hx
    exact mem_ranked.1 ((List.take_sublist max _).mem hx)
  · -- What is left out comes behind everything that is kept.
    intro x hx y hy hout
    have hmem := mem_ranked.2 hy
    rw [← hsplit, List.mem_append] at hmem
    exact hordered.2.2 x hx y (hmem.resolve_left hout)
  · rw [truncateBySeverity, ← map_fst_ranked, List.map_take]

end CodeCoach
