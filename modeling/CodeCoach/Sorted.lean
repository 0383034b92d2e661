/-!
# Lists in the order of their keys

* `Sorted.put`, which puts an item in its place by key and replaces an item of the same key;
* `Sorted.find?`, the item of a key;
* `Sorted.Increasing`, for lists of which the keys are strictly increasing, so that each key occurs
  once; `Sorted.put` keeps it;
* `NameSet`, a set of names, which is listed in order.
-/

namespace CodeCoach

namespace Sorted

variable {α : Type} (key : α → String)

/-- Puts an item in its place by key; an item of the same key is replaced. -/
def put (item : α) : List α → List α
  | [] => [item]
  | a :: rest =>
    if key item < key a then item :: a :: rest
    else if key item == key a then item :: rest
    else a :: put item rest

/-- The items in the order of their keys; of several with one key the last counts. -/
def ofList (items : List α) : List α := items.foldl (fun sorted a => put key a sorted) []

/-- The item of a key. -/
def find? (k : String) (items : List α) : Option α := items.find? fun a => key a == k

/-- The keys are strictly increasing. -/
def Increasing (items : List α) : Prop := items.Pairwise fun a b => key a < key b

theorem increasing_nil : Increasing key [] := List.Pairwise.nil

theorem mem_of_mem_put {item a : α} {items : List α} (h : a ∈ put key item items) :
    a = item ∨ a ∈ items := by
  induction items with
  | nil => simpa [put] using h
  | cons b rest ih =>
    simp only [put] at h
    split at h
    · simpa using h
    · split at h
      · rcases List.mem_cons.1 h with h | h
        · exact Or.inl h
        · exact Or.inr (List.mem_cons_of_mem _ h)
      · rcases List.mem_cons.1 h with h | h
        · exact Or.inr (by simp [h])
        · rcases ih h with h | h
          · exact Or.inl h
          · exact Or.inr (List.mem_cons_of_mem _ h)

theorem increasing_put {items : List α} (item : α) (h : Increasing key items) :
    Increasing key (put key item items) := by
  induction items with
  | nil => simp [put, Increasing]
  | cons a rest ih =>
    have ha := (List.pairwise_cons.1 h).1
    have hr := (List.pairwise_cons.1 h).2
    simp only [put]
    split
    · rename_i hlt
      refine List.pairwise_cons.2 ⟨fun b hb => ?_, h⟩
      rcases List.mem_cons.1 hb with hb | hb
      · exact hb ▸ hlt
      · exact String.lt_trans hlt (ha b hb)
    · rename_i hnot
      split
      · rename_i heq
        have heq : key item = key a := by simpa using heq
        exact List.pairwise_cons.2 ⟨fun b hb => heq ▸ ha b hb, hr⟩
      · rename_i hne
        have hne : ¬ key item = key a := by simpa using hne
        have hgt : key a < key item := by grind
        refine List.pairwise_cons.2 ⟨fun b hb => ?_, ih hr⟩
        rcases mem_of_mem_put key hb with hb | hb
        · exact hb ▸ hgt
        · exact ha b hb

theorem increasing_ofList (items : List α) : Increasing key (ofList key items) := by
  have all : ∀ (items sorted : List α), Increasing key sorted →
      Increasing key (items.foldl (fun sorted a => put key a sorted) sorted) := by
    intro items
    induction items with
    | nil => exact fun _ h => h
    | cons a rest ih => exact fun sorted h => ih _ (increasing_put key a h)
  exact all items [] (increasing_nil key)

/-- An item beyond all others goes to the end. -/
theorem put_of_all_lt {items : List α} {item : α} (h : ∀ a ∈ items, key a < key item) :
    put key item items = items ++ [item] := by
  induction items with
  | nil => rfl
  | cons a rest ih =>
    have ha := h a (by simp)
    have hnot : ¬ key item < key a := String.lt_asymm ha
    have hne : ¬ key item = key a := fun e => String.lt_irrefl _ (e ▸ ha)
    have := ih fun b hb => h b (by simp [hb])
    simp [put, hnot, hne, this]

theorem ofList_of_increasing {items : List α} (h : Increasing key items) :
    ofList key items = items := by
  have all : ∀ (items sorted : List α), Increasing key (sorted ++ items) →
      items.foldl (fun sorted a => put key a sorted) sorted = sorted ++ items := by
    intro items
    induction items with
    | nil => simp
    | cons a rest ih =>
      intro sorted h
      have hput : put key a sorted = sorted ++ [a] :=
        put_of_all_lt key fun b hb => (List.pairwise_append.1 h).2.2 b hb a (by simp)
      rw [List.foldl_cons, hput, ih _ (by simpa using h)]
      simp
  exact all items [] (by simpa using h)

/-- What a later search sees. -/
theorem find?_put (item : α) (k : String) (items : List α) :
    find? key k (put key item items) = if k = key item then some item else find? key k items := by
  induction items with
  | nil =>
    by_cases h : k = key item
    · simp [put, find?, h]
    · simp [put, find?, h, Ne.symm h]
  | cons a rest ih =>
    simp only [find?] at ih
    by_cases hk : k = key item
    · subst hk
      simp only [if_true] at ih ⊢
      unfold put
      split
      · simp [find?]
      · split
        · simp [find?]
        · rename_i _ hne
          have hne : ¬ key a = key item := fun e => hne (by simp [e])
          simp [find?, hne, ih]
    · have hik : ¬ key item = k := fun e => hk e.symm
      simp only [if_neg hk] at ih ⊢
      unfold put
      split
      · simp [find?, hik]
      · split
        · rename_i _ heq
          have heq : key item = key a := by simpa using heq
          have hak : ¬ key a = k := fun e => hik (heq.trans e)
          simp [find?, hik, hak]
        · by_cases hak : key a = k
          · simp [find?, hak]
          · simp [find?, hak, ih]

/-- In a list in order, the search for its own key finds every item. -/
theorem find?_eq_some_iff {items : List α} (h : Increasing key items) {a : α} {k : String} :
    find? key k items = some a ↔ a ∈ items ∧ key a = k := by
  induction items with
  | nil => simp [find?]
  | cons b rest ih =>
    have hb := (List.pairwise_cons.1 h).1
    have ih := ih (List.pairwise_cons.1 h).2
    simp only [find?] at ih ⊢
    by_cases hk : key b = k
    · rw [List.find?_cons_of_pos (by simpa using hk), Option.some.injEq]
      constructor
      · rintro rfl
        exact ⟨by simp, hk⟩
      · rintro ⟨hmem, hak⟩
        rcases List.mem_cons.1 hmem with rfl | hmem
        · rfl
        · have hlt := hb a hmem
          rw [hk, hak] at hlt
          exact absurd hlt (String.lt_irrefl _)
    · rw [List.find?_cons_of_neg (by simpa using hk), ih, List.mem_cons]
      constructor
      · rintro ⟨hmem, hak⟩
        exact ⟨Or.inr hmem, hak⟩
      · rintro ⟨rfl | hmem, hak⟩
        · exact absurd hak hk
        · exact ⟨hmem, hak⟩

end Sorted

/-! ### Sets of names -/

/-- A set of names, listed in order. -/
structure NameSet where
  names : List String
  increasing : Sorted.Increasing id names

namespace NameSet

instance : DecidableEq NameSet := fun s t =>
  if h : s.names = t.names then isTrue (by cases s; cases t; simp_all)
  else isFalse fun e => h (congrArg names e)

def empty : NameSet := ⟨[], Sorted.increasing_nil id⟩

def insert (s : NameSet) (name : String) : NameSet :=
  ⟨Sorted.put id name s.names, Sorted.increasing_put id name s.increasing⟩

def ofList (names : List String) : NameSet :=
  ⟨Sorted.ofList id names, Sorted.increasing_ofList id names⟩

def contains (s : NameSet) (name : String) : Bool := s.names.contains name

instance : Membership String NameSet := ⟨fun s name => name ∈ s.names⟩

theorem mem_def {s : NameSet} {name : String} : name ∈ s ↔ name ∈ s.names := Iff.rfl

@[simp] theorem contains_iff {s : NameSet} {name : String} : s.contains name = true ↔ name ∈ s := by
  simp [contains, mem_def]

@[simp] theorem not_mem_empty (name : String) : ¬ name ∈ empty := by simp [mem_def, empty]

theorem mem_insert {s : NameSet} {name other : String} :
    other ∈ s.insert name ↔ other = name ∨ other ∈ s := by
  have found (names : List String) : other ∈ names ↔ Sorted.find? id other names = some other := by
    simp only [Sorted.find?, id]
    constructor
    · intro h
      cases hf : names.find? fun a => a == other with
      | none => exact absurd (List.find?_eq_none.1 hf other h) (by simp)
      | some a => simpa using List.find?_some hf
    · exact List.mem_of_find?_eq_some
  rw [mem_def, mem_def, found, found, insert, Sorted.find?_put]
  by_cases h : other = name <;> simp [h]

theorem ofList_names (s : NameSet) : ofList s.names = s := by
  obtain ⟨names, h⟩ := s
  simp only [ofList, Sorted.ofList_of_increasing id h]

end NameSet

end CodeCoach
