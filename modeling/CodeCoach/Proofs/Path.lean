import CodeCoach.Path
import Mathlib.Data.List.Basic

/-!
# The names in a path

What a path is made of does not matter here, characters or bytes.

* `Path.IsDirectoryPart`, the part of a path before one of its names, and `Path.pieces_append`,
  `Path.pieces_name`, the pieces of a path that goes on;
* `Path.HasName`, the names in a path, told from its slashes alone, and `Path.hasName_iff`: they are
  those of its pieces that name something;
* `Path.hasName_append_slash_iff`, the names of a path that goes on behind a slash;
* `Path.Respelled`, a path with slashes at its end and single dots among its names, which has the same
  names;
* `Path.normal_mem_below_joined_iff`: a path taken from a base has its own names below that base;
* `Path.joined_joined`: what is below a path in a directory is in that directory, below the path.
-/

namespace CodeCoach.Path

open PathUnit

variable {α : Type} [PathUnit α]

@[simp] theorem slash_char : (slash : Char) = '/' := rfl

/-- The part of a path before one of its names. -/
def IsDirectoryPart (dir : List α) : Prop := dir = [] ∨ ∃ cs, dir = cs ++ [slash]

variable [DecidableEq α] {cs dir name p path rest base other : List α}

/-! ### Pieces -/

theorem pieces_ne_nil (cs : List α) : pieces cs ≠ [] := by
  cases cs with
  | nil => simp [pieces]
  | cons c cs =>
    unfold pieces
    split
    · simp
    · split <;> simp

theorem pieces_append (cs ds : List α) : pieces (cs ++ slash :: ds) = pieces cs ++ pieces ds := by
  induction cs with
  | nil => simp [pieces]
  | cons c cs ih =>
    obtain ⟨p, ps, hps⟩ := List.exists_cons_of_ne_nil (pieces_ne_nil cs)
    rw [List.cons_append, pieces, pieces, ih, hps]
    split <;> rfl

/-- The pieces of a string that goes on behind a slash. -/
theorem pieces_append_char (cs ds : List Char) :
    pieces (cs ++ '/' :: ds) = pieces cs ++ pieces ds := pieces_append cs ds

theorem pieces_of_not_mem (h : slash ∉ cs) : pieces cs = [cs] := by
  induction cs with
  | nil => rfl
  | cons c cs ih =>
    obtain ⟨hc, hcs⟩ := not_or.1 (List.mem_cons.not.1 h)
    rw [pieces, if_neg (by simpa using Ne.symm hc), ih hcs]

theorem pieces_name (hdir : IsDirectoryPart dir) (h : slash ∉ name) :
    pieces (dir ++ name) = (pieces dir).dropLast ++ [name] := by
  rcases hdir with rfl | ⟨cs, rfl⟩
  · simpa [pieces] using pieces_of_not_mem h
  · rw [List.append_assoc, List.singleton_append, pieces_append, pieces_append,
      pieces_of_not_mem h]
    simp [pieces]

/-- Where a path begins is not a matter of its last name. -/
theorem isRooted_name (hdir : IsDirectoryPart dir) (h : slash ∉ name) :
    isRooted (dir ++ name) = isRooted dir := by
  rcases hdir with rfl | ⟨cs, rfl⟩
  · cases name with
    | nil => rfl
    | cons c name =>
      have hc : ¬ c = slash := fun e => h (by simp [e])
      simpa [isRooted] using hc
  · cases cs <;> rfl

theorem isRooted_of_not_mem (h : slash ∉ cs) : isRooted cs = false :=
  have hnone : IsDirectoryPart ([] : List α) := Or.inl rfl
  isRooted_name hnone h

/-! ### Paths taken from one another -/

theorem isDirectoryPart_asBase (base : List α) : IsDirectoryPart (asBase base) := by
  unfold asBase
  split
  · exact Or.inl rfl
  · split
    · next h =>
      obtain ⟨cs, hcs⟩ := List.getLast?_eq_some_iff.1 (beq_iff_eq.1 h)
      exact Or.inr ⟨cs, hcs⟩
    · exact Or.inr ⟨_, rfl⟩

theorem joined_of_relative (h : isRooted other = false) (base : List α) :
    joined base other = asBase base ++ other := by
  rw [joined, h, if_neg Bool.false_ne_true]

/-- A base gets a slash at its end, unless it has one. -/
theorem asBase_of_ne (h : base ≠ []) :
    asBase base = base ∧ (∃ cs, base = cs ++ [slash]) ∨ asBase base = base ++ [slash] := by
  unfold asBase
  rw [if_neg (by simpa using h)]
  split
  · next hlast => exact Or.inl ⟨rfl, List.getLast?_eq_some_iff.1 (beq_iff_eq.1 hlast)⟩
  · exact Or.inr rfl

theorem asBase_eq (h : base ≠ []) :
    asBase base = base ++ if base.getLast? == some slash then [] else [slash] := by
  unfold asBase
  rw [if_neg (by simpa using h)]
  split
  · rw [List.append_nil]
  · rfl

theorem asBase_joined (hpath : isRooted path = false) (base : List α) :
    asBase (joined base path) = asBase base ++ asBase path := by
  rw [joined_of_relative hpath]
  by_cases hempty : path = []
  · subst hempty
    rw [List.append_nil]
    -- A base with a slash at its end is its own base.
    rcases isDirectoryPart_asBase base with hpart | ⟨cs, hpart⟩
    · rw [hpart]
      rfl
    · rw [hpart, asBase_eq (by simp)]
      simp [asBase]
  · have hne : asBase base ++ path ≠ [] := by simp [hempty]
    rw [asBase_eq hne, asBase_eq hempty, List.getLast?_append_of_ne_nil _ hempty,
      List.append_assoc]

theorem isRooted_joined (hpath : isRooted path = false) (hbelow : isRooted rest = false) :
    isRooted (joined path rest) = false := by
  rw [joined_of_relative hbelow]
  by_cases hempty : path = []
  · subst hempty
    exact hbelow
  · rw [asBase_eq hempty]
    obtain ⟨c, cs, rfl⟩ := List.exists_cons_of_ne_nil hempty
    exact hpath

/-- What is below a path in a directory is in that directory, below the path. -/
theorem joined_joined (hpath : isRooted path = false) (hbelow : isRooted rest = false)
    (base : List α) : joined (joined base path) rest = joined base (joined path rest) := by
  rw [joined_of_relative hbelow, asBase_joined hpath,
    joined_of_relative (isRooted_joined hpath hbelow), joined_of_relative hbelow, List.append_assoc]

/-! ### The names in a path -/

/-- The path has the name between two slashes, or between a slash and one of its ends. -/
structure HasName (path name : List α) : Prop where
  noSlash : slash ∉ name
  ne_empty : name ≠ []
  ne_dot : name ≠ [dot]
  ne_dots : name ≠ [dot, dot]
  between : ∃ dir rest, path = dir ++ (name ++ rest) ∧ IsDirectoryPart dir ∧
    (rest = [] ∨ ∃ later, rest = slash :: later)

theorem mem_pieces_of_between (hp : slash ∉ p) (hdir : IsDirectoryPart dir)
    (hrest : rest = [] ∨ ∃ later, rest = slash :: later) : p ∈ pieces (dir ++ (p ++ rest)) := by
  have hhere : p ∈ pieces (p ++ rest) := by
    rcases hrest with rfl | ⟨later, rfl⟩
    · rw [List.append_nil, pieces_of_not_mem hp]
      exact List.mem_singleton_self p
    · rw [pieces_append, pieces_of_not_mem hp]
      exact List.mem_append_left _ (List.mem_singleton_self p)
  rcases hdir with rfl | ⟨above, rfl⟩
  · exact hhere
  · rw [List.append_assoc, List.singleton_append, pieces_append]
    exact List.mem_append_right _ hhere

theorem between_of_mem_pieces (h : p ∈ pieces cs) : slash ∉ p ∧ ∃ dir rest,
    cs = dir ++ (p ++ rest) ∧ IsDirectoryPart dir ∧
      (rest = [] ∨ ∃ later, rest = slash :: later) := by
  induction hn : cs.length using Nat.strongRecOn generalizing cs with
  | _ n ih =>
  subst hn
  by_cases hslash : slash ∈ cs
  · -- The path is cut at its first slash.
    obtain ⟨first, later, rfl, hfirst⟩ := List.eq_append_cons_of_mem hslash
    rw [pieces_append, pieces_of_not_mem hfirst, List.singleton_append] at h
    rcases List.mem_cons.1 h with rfl | h
    · exact ⟨hfirst, [], slash :: later, rfl, .inl rfl, .inr ⟨later, rfl⟩⟩
    · have hshorter : later.length < (first ++ slash :: later).length := by
        simp only [List.length_append, List.length_cons]
        omega
      obtain ⟨hp, dir, rest, rfl, hdir, hrest⟩ := ih _ hshorter h rfl
      refine ⟨hp, first ++ slash :: dir, rest, by simp, .inr ?_, hrest⟩
      rcases hdir with rfl | ⟨above, rfl⟩
      · exact ⟨first, rfl⟩
      · exact ⟨first ++ slash :: above, by simp⟩
  · rw [pieces_of_not_mem hslash, List.mem_singleton] at h
    exact ⟨h ▸ hslash, [], [], by simp [h], .inl rfl, .inl rfl⟩

/-- The names in a path are its pieces, without those that name nothing below. -/
theorem hasName_iff : HasName path name ↔
    name ∈ pieces path ∧ name ≠ [] ∧ name ≠ [dot] ∧ name ≠ [dot, dot] := by
  constructor
  · rintro ⟨hslash, hempty, hdot, hdots, dir, rest, rfl, hdir, hrest⟩
    exact ⟨mem_pieces_of_between hslash hdir hrest, hempty, hdot, hdots⟩
  · rintro ⟨hmem, hempty, hdot, hdots⟩
    obtain ⟨hslash, hbetween⟩ := between_of_mem_pieces hmem
    exact ⟨hslash, hempty, hdot, hdots, hbetween⟩

theorem hasName_append_slash_iff :
    HasName (cs ++ slash :: rest) name ↔ HasName cs name ∨ HasName rest name := by
  simp only [hasName_iff, pieces_append, List.mem_append, or_and_right]

omit [DecidableEq α] in
theorem not_hasName_empty : ¬HasName [] name := by
  rintro ⟨-, hempty, -, -, dir, rest, hpath, -⟩
  simp [hempty] at hpath

theorem not_hasName_dot : ¬HasName [dot] name := by
  rw [hasName_iff, pieces_of_not_mem (by simpa using slash_ne_dot), List.mem_singleton]
  rintro ⟨hname, -, hdot, -⟩
  exact hdot hname

/-- A path keeps its names when it goes on. -/
theorem HasName.joined (h : HasName path name) (hbelow : isRooted rest = false) :
    HasName (Path.joined path rest) name := by
  have hempty : path ≠ [] := by
    rintro rfl
    exact not_hasName_empty h
  rw [joined_of_relative hbelow]
  rcases asBase_of_ne hempty with ⟨hpart, cs, hcs⟩ | hpart
  · rw [hcs, hasName_append_slash_iff, or_iff_left not_hasName_empty] at h
    rw [hpart, hcs, List.append_assoc, List.singleton_append]
    exact hasName_append_slash_iff.2 (.inl h)
  · rw [hpart, List.append_assoc, List.singleton_append]
    exact hasName_append_slash_iff.2 (.inl h)

/-! ### Components -/

theorem component?_eq_normal_iff : component? p = some (.normal name) ↔
    p = name ∧ name ≠ [] ∧ name ≠ [dot] ∧ name ≠ [dot, dot] := by
  unfold component?
  constructor
  · intro h
    split at h
    · cases h
    · rename_i hplain
      split at h
      · cases h
      · rename_i hdots
        cases h
        obtain ⟨hempty, hdot⟩ : ¬name = [] ∧ ¬name = [dot] := by simpa using hplain
        exact ⟨rfl, hempty, hdot, by simpa using hdots⟩
  · rintro ⟨rfl, hempty, hdot, hdots⟩
    simp [hempty, hdot, hdots]

theorem normal_mem_filterMap_iff :
    Component.normal name ∈ (pieces path).filterMap component? ↔ HasName path name := by
  rw [List.mem_filterMap, hasName_iff]
  constructor
  · rintro ⟨p, hp, hcomponent⟩
    obtain ⟨rfl, hname⟩ := component?_eq_normal_iff.1 hcomponent
    exact ⟨hp, hname⟩
  · rintro ⟨hmem, hname⟩
    exact ⟨name, hmem, component?_eq_normal_iff.2 ⟨rfl, hname⟩⟩

/-- The components of a path with a name are those of the names in it. -/
theorem normal_mem_componentsOf_iff :
    Component.normal name ∈ componentsOf path ↔ HasName path name := by
  unfold componentsOf
  rw [List.mem_append, normal_mem_filterMap_iff]
  refine or_iff_right ?_
  split
  · simp
  · split
    · simp
    · simp

/-- Only the empty path has no component. -/
theorem componentsOf_eq_nil (h : componentsOf cs = []) : cs = [] := by
  cases cs with
  | nil => rfl
  | cons c cs =>
    exfalso
    obtain ⟨hstart, hnames⟩ := List.append_eq_nil_iff.1 h
    by_cases hc : c = slash
    · simp [isRooted, hc] at hstart
    · -- The first piece is not empty, and it counts even where it is a dot.
      obtain ⟨p, ps, hps⟩ : ∃ p ps, pieces (c :: cs) = (c :: p) :: ps := by
        rw [pieces, if_neg (by simpa using hc)]
        split
        · exact ⟨[], [], rfl⟩
        · next p ps _ => exact ⟨p, ps, rfl⟩
      rw [hps] at hstart hnames
      have hp : c :: p ≠ [dot] := by
        intro e
        simp [isRooted, hc, e] at hstart
      have hnone := List.filterMap_eq_nil_iff.1 hnames (c :: p) (by simp)
      unfold component? at hnone
      rw [if_neg (by simpa using hp)] at hnone
      split at hnone <;> cases hnone

theorem head?_pieces_append_slash (cs rest : List α) :
    (pieces (cs ++ slash :: rest)).head? = (pieces cs).head? := by
  obtain ⟨p, ps, hps⟩ := List.exists_cons_of_ne_nil (pieces_ne_nil cs)
  rw [pieces_append, hps]
  rfl

theorem filterMap_pieces_concat_slash (cs : List α) :
    (pieces (cs ++ [slash])).filterMap component? = (pieces cs).filterMap component? := by
  rw [pieces_append, List.filterMap_append]
  simp [pieces, component?]

theorem componentsOf_append_slash (cs rest : List α) : componentsOf (cs ++ slash :: rest) =
    componentsOf (cs ++ [slash]) ++ (pieces rest).filterMap component? := by
  have hrooted : isRooted (cs ++ slash :: rest) = isRooted (cs ++ [slash]) := by cases cs <;> rfl
  unfold componentsOf
  rw [filterMap_pieces_concat_slash, hrooted, head?_pieces_append_slash, head?_pieces_append_slash,
    pieces_append, List.filterMap_append, List.append_assoc]

/-- A slash at the end of a path adds no component. -/
theorem componentsOf_concat_slash (h : cs ≠ []) :
    componentsOf (cs ++ [slash]) = componentsOf cs := by
  have hrooted : isRooted (cs ++ [slash]) = isRooted cs := by
    obtain ⟨c, cs, rfl⟩ := List.exists_cons_of_ne_nil h
    rfl
  unfold componentsOf
  rw [filterMap_pieces_concat_slash, hrooted, head?_pieces_append_slash]

/-- A path taken from a directory has the components of the directory first. -/
theorem componentsOf_joined (hother : isRooted other = false) (hbase : base ≠ []) :
    componentsOf (joined base other) =
      componentsOf base ++ (pieces other).filterMap component? := by
  rw [joined_of_relative hother]
  rcases asBase_of_ne hbase with ⟨hpart, cs, hcs⟩ | hpart
  · rw [hpart, hcs, List.append_assoc, List.singleton_append, componentsOf_append_slash]
  · rw [hpart, List.append_assoc, List.singleton_append, componentsOf_append_slash,
      componentsOf_concat_slash hbase]

/-- A path taken from a base has its own names below that base. -/
theorem normal_mem_below_joined_iff (hother : isRooted other = false) :
    Component.normal name ∈ below base (joined base other) ↔ HasName other name := by
  unfold below
  by_cases hbase : base = []
  · subst hbase
    have hjoined : joined [] other = other := by rw [joined_of_relative hother]; rfl
    have hnone : componentsOf ([] : List α) = [] := rfl
    rw [hjoined, hnone]
    exact normal_mem_componentsOf_iff
  · simp only [componentsOf_joined hother hbase, List.isPrefixOf_iff_prefix, List.prefix_append,
      if_true, List.drop_left]
    exact normal_mem_filterMap_iff

/-! ### Other spellings -/

/-- The second path is the first one with slashes put to its end and single dots put among its
names. -/
inductive Respelled (path : List α) : List α → Prop
  | same : Respelled path path
  | slash {cs : List α} (hne : cs ≠ []) (h : Respelled path cs) : Respelled path (cs ++ [slash])
  | dot {dir rest : List α} (hdir : IsDirectoryPart dir) (h : Respelled path (dir ++ rest)) :
    Respelled path (dir ++ dot :: slash :: rest)
  | lastDot {dir : List α} (hdir : IsDirectoryPart dir) (h : Respelled path dir) :
    Respelled path (dir ++ [dot])

theorem Respelled.hasName_iff (h : Respelled path cs) : HasName cs name ↔ HasName path name := by
  induction h with
  | same => rfl
  | slash _ _ ih => rw [hasName_append_slash_iff, or_iff_left not_hasName_empty, ih]
  | @dot dir rest hdir _ ih =>
    have hdot : HasName (PathUnit.dot :: PathUnit.slash :: rest) name ↔ HasName rest name := by
      rw [← List.singleton_append, hasName_append_slash_iff, or_iff_right not_hasName_dot]
    rcases hdir with rfl | ⟨above, rfl⟩
    · exact hdot.trans ih
    · rw [List.append_assoc, List.singleton_append, hasName_append_slash_iff] at ih ⊢
      rw [hdot, ih]
  | lastDot hdir _ ih =>
    rcases hdir with rfl | ⟨above, rfl⟩
    · rw [← ih, List.nil_append, iff_false_right not_hasName_empty]
      exact not_hasName_dot
    · rw [hasName_append_slash_iff, or_iff_left not_hasName_empty] at ih
      rw [List.append_assoc, List.singleton_append, hasName_append_slash_iff,
        or_iff_left not_hasName_dot, ih]

theorem Respelled.isRooted_eq (h : Respelled path cs) (hrel : isRooted path = false) :
    isRooted cs = false := by
  have hdot : ∀ rest : List α, isRooted (PathUnit.dot :: rest) = false := fun rest => by
    simpa [isRooted] using (slash_ne_dot (α := α)).symm
  induction h with
  | same => exact hrel
  | @slash cs hne _ ih =>
    obtain ⟨c, cs, rfl⟩ := List.exists_cons_of_ne_nil hne
    exact ih
  | @dot dir rest hdir _ ih =>
    cases dir with
    | nil => exact hdot _
    | cons c dir => exact ih
  | @lastDot dir hdir _ ih =>
    cases dir with
    | nil => exact hdot _
    | cons c dir => exact ih

end CodeCoach.Path
