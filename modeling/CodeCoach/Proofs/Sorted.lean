import CodeCoach.Sorted
import Mathlib.Data.List.Induction
import Mathlib.Data.List.Sort

/-!
# What a list in order is made of

* `Sorted.mem_of_mem_ofList`, `Sorted.find?_ofList`: putting items in order adds none, and of
  several with one key the last is found;
* `Sorted.Increasing.ext`, `NameSet.ext`: nothing but what is in it makes a list in order.
-/

namespace CodeCoach

namespace Sorted

variable {α : Type} (key : α → String)

/-- No two items have one key. -/
theorem Increasing.nodup {items : List α} (h : Increasing key items) : (items.map key).Nodup := by
  rw [List.Nodup, List.pairwise_map]
  refine h.imp ?_
  intro a b hlt e
  rw [e] at hlt
  exact String.lt_irrefl _ hlt

theorem ofList_concat (items : List α) (a : α) :
    ofList key (items ++ [a]) = put key a (ofList key items) := by
  simp [ofList, List.foldl_append]

theorem mem_of_mem_ofList {items : List α} {a : α} (h : a ∈ ofList key items) : a ∈ items := by
  induction items using List.reverseRecOn with
  | nil => simp [ofList] at h
  | append_singleton items b ih =>
    rw [ofList_concat] at h
    rcases mem_of_mem_put key h with rfl | h
    · simp
    · exact List.mem_append_left _ (ih h)

theorem find?_ofList (k : String) (items : List α) :
    find? key k (ofList key items) = items.reverse.find? fun a => key a == k := by
  induction items using List.reverseRecOn with
  | nil => rfl
  | append_singleton items b ih =>
    rw [ofList_concat, find?_put, ih, List.reverse_append, List.reverse_singleton,
      List.singleton_append, List.find?_cons]
    by_cases h : k = key b
    · simp [h]
    · rw [if_neg h]
      have hne : (key b == k) = false := by simpa using fun e => h e.symm
      rw [hne]

theorem Increasing.eq_of_mem_iff {items items' : List α} (h : Increasing key items)
    (h' : Increasing key items') (hmem : ∀ a, a ∈ items ↔ a ∈ items') : items = items' := by
  have : Std.Antisymm fun a b : α => key a < key b :=
    ⟨fun _ _ hab hba => absurd hba (String.lt_asymm hab)⟩
  have : Std.Irrefl fun a b : α => key a < key b := ⟨fun _ => String.lt_irrefl _⟩
  exact List.Pairwise.eq_of_mem_iff h h' hmem

/-- Lists in order are equal where a search finds the same in both. -/
theorem Increasing.ext {items items' : List α} (h : Increasing key items)
    (h' : Increasing key items') (hfind : ∀ k, find? key k items = find? key k items') :
    items = items' := by
  refine h.eq_of_mem_iff key h' fun a => ?_
  have hmem := find?_eq_some_iff key h (a := a) (k := key a)
  have hmem' := find?_eq_some_iff key h' (a := a) (k := key a)
  rw [hfind] at hmem
  simpa using hmem.symm.trans hmem'

end Sorted

namespace NameSet

theorem ext {s t : NameSet} (h : ∀ name, s.contains name = t.contains name) : s = t := by
  have hmem : ∀ name, name ∈ s ↔ name ∈ t := fun name => by
    rw [← contains_iff, h, contains_iff]
  obtain ⟨names, hs⟩ := s
  obtain ⟨names', ht⟩ := t
  obtain rfl : names = names' := hs.eq_of_mem_iff id ht hmem
  rfl

theorem contains_insert (s : NameSet) (name other : String) :
    (s.insert name).contains other = (s.contains other || other == name) := by
  rw [Bool.eq_iff_iff]
  simp [mem_insert, or_comm]

theorem contains_insert_if (s : NameSet) (c : Bool) (name other : String) :
    (if c then s.insert name else s).contains other =
      (s.contains other || (c && other == name)) := by
  cases c <;> simp [contains_insert]

end NameSet

end CodeCoach
