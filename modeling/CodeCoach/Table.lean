/-!
# Tables

A table gives values to some keys.  Only the value of each key is visible, not the order of the
entries.

* `Table.get?`, `Table.set`, `Table.erase`, with one lemma each that says what a later `get?` sees.
-/

namespace CodeCoach

/-- Values of keys. -/
structure Table (κ α : Type) where
  entries : List (κ × α)
  deriving DecidableEq, Repr

namespace Table

variable {κ α : Type} [DecidableEq κ]

def empty : Table κ α := ⟨[]⟩

/-- The value of a key. -/
def get? (t : Table κ α) (key : κ) : Option α :=
  (t.entries.find? fun e => e.1 == key).map Prod.snd

/-- The table without a key. -/
def erase (t : Table κ α) (key : κ) : Table κ α := ⟨t.entries.filter fun e => e.1 != key⟩

/-- The table with a new value for a key. -/
def set (t : Table κ α) (key : κ) (value : α) : Table κ α := ⟨(key, value) :: (t.erase key).entries⟩

@[simp] theorem get?_empty (key : κ) : (empty : Table κ α).get? key = none := rfl

theorem get?_erase (t : Table κ α) (key other : κ) :
    (t.erase key).get? other = if other = key then none else t.get? other := by
  obtain ⟨es⟩ := t
  simp only [get?, erase]
  induction es with
  | nil => simp
  | cons e es ih =>
    by_cases hk : e.1 = key
    · by_cases ho : other = key
      · simp [ho]
      · have hko : ¬ key = other := fun h => ho h.symm
        simpa [List.filter_cons, hk, ho, hko] using ih
    · by_cases heo : e.1 = other
      · have ho : ¬ other = key := fun h => hk (heo.trans h)
        simp [heo, ho]
      · simpa [List.filter_cons, hk, heo] using ih

theorem get?_set (t : Table κ α) (key other : κ) (value : α) :
    (t.set key value).get? other = if other = key then some value else t.get? other := by
  by_cases h : other = key
  · simp [set, get?, h]
  · have hk : ¬ key = other := fun e => h e.symm
    have := get?_erase t key other
    simp only [h, if_false] at this ⊢
    rw [← this]
    simp [set, get?, hk]

end Table

end CodeCoach
