import CodeCoach.Json.Record
import CodeCoach.Proofs.Json.Text

/-!
# Fields and lists of a value in order

* `Json.field?_sorted`: where the names of an object differ, putting its fields in order changes
  none of them;
* `Json.list?_map`: a list is read back, if each of its items is;
* `Json.legible_list`.
-/

namespace CodeCoach.Json

@[simp] theorem field?_nil (name : String) : field? name [] = none := rfl

theorem field?_cons (name : String) (f : String × Json) (fs : List (String × Json)) :
    field? name (f :: fs) = if f.1 = name then some f.2 else field? name fs := by
  by_cases h : f.1 = name <;> simp [field?, h]

theorem field?_eq_none {name : String} {fs : List (String × Json)} :
    field? name fs = none ↔ name ∉ fs.map Prod.fst := by
  induction fs with
  | nil => simp [field?]
  | cons f fs ih =>
    rw [field?_cons]
    by_cases h : f.1 = name
    · simp [h]
    · have hne : ¬ name = f.1 := fun e => h e.symm
      simp [h, hne, ih]

/-- With one field a name, the first field of a name is also the last. -/
theorem find?_reverse {fs : List (String × Json)} (h : (fs.map Prod.fst).Nodup) (name : String) :
    (fs.reverse.find? fun f => f.1 == name) = fs.find? fun f => f.1 == name := by
  induction fs with
  | nil => rfl
  | cons f fs ih =>
    obtain ⟨hf, hfs⟩ := List.nodup_cons.1 h
    rw [List.reverse_cons, List.find?_append, ih hfs]
    by_cases hname : f.1 = name
    · have hnone : (fs.find? fun f => f.1 == name) = none := by
        rw [← Option.map_eq_none_iff (f := Prod.snd)]
        exact field?_eq_none.2 (hname ▸ hf)
      simp [hnone, hname]
    · simp [hname]

theorem field?_sortFields {fs : List (String × Json)} (h : (fs.map Prod.fst).Nodup)
    (name : String) : field? name (sortFields fs) = field? name fs := by
  show (Sorted.find? Prod.fst name (sortFields fs)).map Prod.snd = _
  rw [sortFields, Sorted.find?_ofList, find?_reverse h]
  rfl

theorem field?_sortedFields (name : String) (fs : List (String × Json)) :
    field? name (sortedFields fs) = (field? name fs).map sorted := by
  induction fs with
  | nil => rfl
  | cons f fs ih =>
    rw [sortedFields, field?_cons, field?_cons, ih]
    split <;> rfl

theorem names_sortedFields (fs : List (String × Json)) :
    (sortedFields fs).map Prod.fst = fs.map Prod.fst := by
  simp [sortedFields_eq_map]

/-- Putting an object in order keeps the fields of different names. -/
theorem field?_sorted {fs : List (String × Json)} (h : (fs.map Prod.fst).Nodup) (name : String) :
    field? name (sortFields (sortedFields fs)) = (field? name fs).map sorted := by
  rw [field?_sortFields (by rwa [names_sortedFields]), field?_sortedFields]

/-! ### Lists -/

theorem list?_map {α : Type} {read : Json → Option α} {write : α → Json} {as : List α}
    (h : ∀ a ∈ as, read (write a).sorted = some a) :
    list? read (arr (as.map write)).sorted = some as := by
  show (sortedItems (as.map write)).mapM read = some as
  rw [sortedItems_eq_map, List.map_map]
  induction as with
  | nil => rfl
  | cons a as ih =>
    have ha := h a (by simp)
    have has := ih fun b hb => h b (by simp [hb])
    simp [List.mapM_cons, ha, has]

theorem legible_list {α : Type} {levels : Nat} {write : α → Json} {as : List α}
    (h : ∀ a ∈ as, Legible levels (write a)) : Legible (levels + 1) (arr (as.map write)) := by
  refine Legible.arr fun v hv => ?_
  obtain ⟨a, ha, rfl⟩ := List.mem_map.1 hv
  exact h a ha

end CodeCoach.Json
