import CodeCoach.Json.Number
import CodeCoach.Json.Record
import CodeCoach.Proofs.Json.Float
import Mathlib.Data.List.Forall2

/-!
# What readers give

A reader that succeeds has checked what it read, so what it gives lies within the limits of its type.

* `Json.Bounded`, the values that a program can hold: whole numbers of 64 bits and finite floats;
* `Json.Gives`, that what a reader gives has a property, and how this passes on to the fields of a
  structure;
* `gives_natBelow`, `gives_float`, `gives_list`, with `list?_eq_some_iff`: a list is read where every item
  of it is.
-/

namespace CodeCoach.Json

/-- The whole numbers of the value fit 64 bits and its floats are finite. -/
inductive Bounded : Json → Prop
  | null : Bounded null
  | bool (b : Bool) : Bounded (bool b)
  | int {n : Int} (least : -0x8000000000000000 ≤ n) (greatest : n ≤ maxWord) : Bounded (int n)
  | float {f : Float} (h : f.isFinite) : Bounded (float f)
  | str (s : String) : Bounded (str s)
  | arr {items : List Json} (h : ∀ v ∈ items, Bounded v) : Bounded (arr items)
  | obj {fields : List (String × Json)} (h : ∀ f ∈ fields, Bounded f.2) : Bounded (obj fields)

/-- What the reader gives has the property. -/
def Gives (read : Json → Option α) (p : α → Prop) : Prop :=
  ∀ v a, v.Bounded → read v = some a → p a

/-! ### Numbers -/

theorem gives_natBelow (bound : Nat) : Gives (natBelow? bound) (· < bound) := by
  intro v n _ h
  cases v with
  | int i =>
    simp only [natBelow?, Option.ite_none_right_eq_some, Bool.and_eq_true, decide_eq_true_eq,
      Option.some.injEq] at h
    omega
  | _ => cases h

theorem gives_float : Gives float? (fun f => f.isFinite) := by
  intro v f hv h
  cases hv with
  | int least greatest =>
    cases h
    refine isFinite_ofInt (by omega) ?_
    unfold maxWord at greatest
    omega
  | float hf =>
    cases h
    exact hf
  | _ => cases h

/-! ### Lists -/

section Lists

variable {α : Type} {read : Json → Option α} {p : α → Prop}

/-- The reader makes the values of the items, in order. -/
def Reads (read : Json → Option α) (items : List Json) (as : List α) : Prop :=
  List.Forall₂ (fun v a => read v = some a) items as

theorem mapM_eq_some_iff {items : List Json} {as : List α} :
    items.mapM read = some as ↔ Reads read items as := by
  induction items generalizing as with
  | nil =>
    rw [List.mapM_nil, Reads, List.forall₂_nil_left_iff]
    exact ⟨fun h => (Option.some.inj h).symm, fun h => congrArg some h.symm⟩
  | cons v items ih =>
    rw [List.mapM_cons, Option.bind_eq_bind, Option.bind_eq_some_iff, Reads,
      List.forall₂_cons_left_iff]
    constructor
    · rintro ⟨a, ha, h⟩
      obtain ⟨rest, hrest, h⟩ := Option.bind_eq_some_iff.1 h
      exact ⟨a, rest, ha, ih.1 hrest, (Option.some.inj h).symm⟩
    · rintro ⟨a, rest, ha, hrest, rfl⟩
      exact ⟨a, ha, Option.bind_eq_some_iff.2 ⟨rest, ih.2 hrest, rfl⟩⟩

/-- A list is read as a whole or not at all. -/
theorem list?_eq_some_iff {v : Json} {as : List α} :
    list? read v = some as ↔ ∃ items, v = arr items ∧ Reads read items as := by
  cases v with
  | arr items => simp [list?, mapM_eq_some_iff]
  | _ => simp [list?]

theorem gives_list (h : Gives read p) : Gives (list? read) fun as => ∀ a ∈ as, p a := by
  intro v as hv has
  obtain ⟨items, rfl, hreads⟩ := list?_eq_some_iff.1 has
  cases hv with
  | arr hitems =>
    induction hreads with
    | nil => simp
    | cons hread _ ih =>
      obtain ⟨hw, hitems⟩ := List.forall_mem_cons.1 hitems
      refine List.forall_mem_cons.2 ⟨h _ _ hw hread, ih ?_ hitems⟩
      exact list?_eq_some_iff.2 ⟨_, rfl, by assumption⟩

end Lists

/-! ### Structures -/

/-- The values of the fields are bounded. -/
def Record.Bounded : Record → Prop
  | named fields => ∀ f ∈ fields, f.2.Bounded
  | listed items => ∀ v ∈ items, v.Bounded

section Fields

variable {α : Type} {read : Json → Option α} {p : α → Prop} {r : Record} {position : Nat}
  {name : String} {a : α}

theorem Record.bounded_of_record? {j : Json} {arity : Nat} (hj : j.Bounded)
    (h : j.record? arity = some r) : r.Bounded := by
  cases hj with
  | obj hfields =>
    cases h
    exact hfields
  | arr hitems =>
    simp only [record?, Option.ite_none_right_eq_some, Option.some.injEq] at h
    obtain ⟨-, rfl⟩ := h
    exact hitems
  | _ => cases h

theorem Record.bounded_of_value? {v : Json} (hr : r.Bounded)
    (h : r.value? position name = some v) : v.Bounded := by
  cases r with
  | named fields =>
    obtain ⟨f, hf, rfl⟩ := Option.map_eq_some_iff.1 h
    exact hr f (List.mem_of_find?_eq_some hf)
  | listed items => exact hr v (List.mem_of_getElem? h)

theorem Gives.of_required (h : Gives read p) (hr : r.Bounded)
    (ha : r.required position name read = some a) : p a := by
  obtain ⟨v, hv, ha⟩ := Option.bind_eq_some_iff.1 ha
  exact h v a (Record.bounded_of_value? hr hv) ha

theorem Gives.nullable (h : Gives read p) :
    Gives (Record.nullable read) fun o => ∀ a ∈ o, p a := by
  intro v o hv ho a ha
  cases v with
  | null =>
    cases ho
    cases ha
  | _ =>
    obtain ⟨b, hb, rfl⟩ := Option.map_eq_some_iff.1 ho
    cases ha
    exact h _ _ hv hb

theorem Gives.of_optional (h : Gives read p) (hr : r.Bounded) {o : Option α}
    (ho : r.optional position name read = some o) : ∀ a ∈ o, p a := by
  unfold Record.optional at ho
  split at ho
  · rename_i hv
    exact h.nullable _ o (Record.bounded_of_value? hr hv) ho
  · cases ho
    simp
  · cases ho

theorem Gives.of_defaulted (h : Gives read p) (hr : r.Bounded) {dflt : α} (hd : p dflt)
    (ha : r.defaulted position name dflt read = some a) : p a := by
  unfold Record.defaulted at ha
  split at ha
  · rename_i v hv
    exact h v a (Record.bounded_of_value? hr hv) ha
  · cases ha
    exact hd

end Fields

end CodeCoach.Json
