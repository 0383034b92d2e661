import CodeCoach.Proofs.Storage
import Mathlib.Data.List.TakeWhile

/-!
# The directory of a folder

Slashes at the end of a path to a directory make no difference, and a directory that was made is
where its path leads.

* `Disk.walk_withoutLastSlashes`, `Disk.walk_of_ensureDirectory`, which say so of any path;
* `Folder.leads_iff`: the directory of a folder is where its path leads;
* `Folder.leads_of_makeDirectories`: a directory that could be made is there;
* `Folder.makeDirectories_of_leads`: a directory that is there is left as it is;
* `Folder.leads_or_notFound`: before a directory was made, the paths of its files led nowhere.
-/

namespace CodeCoach

namespace Disk

variable {d e : Disk} {here a b : Address} {node n : Node} {ps : List (List Char)}

/-! ### Slashes at the end -/

theorem followFrom_concat_nil :
    d.followFrom here node (ps ++ [[]]) = .ok (.present a .directory) ↔
      d.followFrom here node ps = .ok (.present a .directory) := by
  fun_induction followFrom d here node ps with
  | case1 here node =>
    cases node with
    | directory => exact Iff.rfl
    | file content => simp [followFrom]
  | case2 here node p ps hnode =>
    rw [List.cons_append, followFrom, if_pos hnode]
  | case3 here node p ps hnode hdot ih =>
    rw [List.cons_append, followFrom, if_neg hnode, if_pos hdot]
    exact ih
  | case4 here node p ps hnode hdot hdots ih =>
    rw [List.cons_append, followFrom, if_neg hnode, if_neg hdot, if_pos hdots]
    exact ih
  | case5 here node p ps hnode hdot hdots hlong =>
    rw [List.cons_append, followFrom, if_neg hnode, if_neg hdot, if_neg hdots, if_pos hlong]
  | case6 here node p ps hnode hdot hdots hlong next hnext ih =>
    rw [List.cons_append, followFrom, if_neg hnode, if_neg hdot, if_neg hdots, if_neg hlong, hnext]
    exact ih
  | case7 here node p ps hnode hdot hdots hlong hnext hempty =>
    rw [List.cons_append, followFrom, if_neg hnode, if_neg hdot, if_neg hdots, if_neg hlong, hnext]
    simp [hempty]
  | case8 here node p ps hnode hdot hdots hlong hnext hempty =>
    rw [List.cons_append, followFrom, if_neg hnode, if_neg hdot, if_neg hdots, if_neg hlong, hnext]
    simp [hempty]

theorem followFrom_replicate_nil (k : Nat) :
    d.followFrom here node (ps ++ List.replicate k []) = .ok (.present a .directory) ↔
      d.followFrom here node ps = .ok (.present a .directory) := by
  induction k with
  | zero => simp
  | succ k ih => rw [List.replicate_succ', ← List.append_assoc, followFrom_concat_nil, ih]

theorem followFrom_of_all_isEmpty (h : ps.all List.isEmpty = true) :
    d.followFrom a .directory ps = .ok (.present a .directory) := by
  induction ps with
  | nil => rfl
  | cons p ps ih =>
    obtain ⟨rfl, hps⟩ : p = [] ∧ ps.all List.isEmpty = true := by simpa using h
    rw [followFrom]
    exact ih hps

theorem pieces_replicate_slash (cs : List Char) (k : Nat) :
    Path.pieces (cs ++ List.replicate k '/') = Path.pieces cs ++ List.replicate k [] := by
  induction k with
  | zero => simp
  | succ k ih =>
    rw [List.replicate_succ', List.replicate_succ', ← List.append_assoc, Path.pieces_append_char, ih,
      List.append_assoc]
    rfl

/-- What is cut off a path is slashes. -/
theorem exists_withoutLastSlashes (cs : List Char) :
    ∃ k, cs = withoutLastSlashes cs ++ List.replicate k '/' ∧
      (cs ≠ [] → withoutLastSlashes cs ≠ []) := by
  by_cases hkept : (cs.reverse.dropWhile (· == '/')).reverse = []
  · exact ⟨0, by simp [withoutLastSlashes, hkept], by simp [withoutLastSlashes, hkept]⟩
  · have hslashes : ∀ c ∈ cs.reverse.takeWhile (· == '/'), c = '/' :=
      fun c hc => by simpa using List.mem_takeWhile_imp hc
    have hsplit := congrArg List.reverse (List.takeWhile_append_dropWhile (p := (· == '/'))
      (l := cs.reverse))
    rw [List.reverse_append, List.reverse_reverse, List.eq_replicate_of_mem hslashes,
      List.reverse_replicate] at hsplit
    refine ⟨(cs.reverse.takeWhile (· == '/')).length, ?_, fun _ => ?_⟩
    · unfold withoutLastSlashes
      rw [if_neg (by simpa using hkept)]
      exact hsplit.symm
    · unfold withoutLastSlashes
      rw [if_neg (by simpa using hkept)]
      exact hkept

/-- A place that was absent is a directory once one was put there. -/
theorem followFrom_put {ps : List (List Char)}
    (h : d.followFrom here node ps = .ok (.absent b)) :
    (d.put b .directory).followFrom here node ps = .ok (.present b .directory) := by
  have hb := node?_of_followFrom_absent h
  have hput := node?_put d hb.1 .directory
  fun_induction followFrom d here node ps with
  | case1 => cases h
  | case2 => cases h
  | case3 here node p ps hnode hdot ih =>
    rw [followFrom, if_neg hnode, if_pos hdot]
    exact ih h
  | case4 here node p ps hnode hdot hdots ih =>
    rw [followFrom, if_neg hnode, if_neg hdot, if_pos hdots]
    exact ih h
  | case5 => cases h
  | case6 here node p ps hnode hdot hdots hlong next hnext ih =>
    have hne : here ++ [p] ≠ b := by
      rintro rfl
      rw [hb.2] at hnext
      cases hnext
    rw [followFrom, if_neg hnode, if_neg hdot, if_neg hdots, if_neg hlong, hput, if_neg hne, hnext]
    exact ih h
  | case7 here node p ps hnode hdot hdots hlong hnone hempty =>
    obtain rfl := Target.absent.inj (Except.ok.inj h)
    rw [followFrom, if_neg hnode, if_neg hdot, if_neg hdots, if_neg hlong, hput, if_pos rfl]
    exact followFrom_of_all_isEmpty hempty
  | case8 => cases h

/-- On a disk that lacks some nodes, a path that leads to a directory on the whole disk leads there
or nowhere. -/
theorem Extends.followFrom (h : Extends d e)
    (he : e.followFrom here node ps = .ok (.present a n)) :
    d.followFrom here node ps = .ok (.present a n) ∨
      d.followFrom here node ps = .error .notFound ∨
      ∃ b, d.followFrom here node ps = .ok (.absent b) := by
  fun_induction Disk.followFrom d here node ps with
  | case1 => exact .inl he
  | case2 here node p ps hnode =>
    rw [Disk.followFrom, if_pos hnode] at he
    cases he
  | case3 here node p ps hnode hdot ih =>
    rw [Disk.followFrom, if_neg hnode, if_pos hdot] at he
    exact ih he
  | case4 here node p ps hnode hdot hdots ih =>
    rw [Disk.followFrom, if_neg hnode, if_neg hdot, if_pos hdots] at he
    exact ih he
  | case5 here node p ps hnode hdot hdots hlong =>
    rw [Disk.followFrom, if_neg hnode, if_neg hdot, if_neg hdots, if_pos hlong] at he
    cases he
  | case6 here node p ps hnode hdot hdots hlong next hnext ih =>
    rw [Disk.followFrom, if_neg hnode, if_neg hdot, if_neg hdots, if_neg hlong,
      h.node? _ _ hnext] at he
    exact ih he
  | case7 => exact .inr (.inr ⟨_, rfl⟩)
  | case8 => exact .inr (.inl rfl)

/-! ### Making a directory -/

/-- The slashes at the end of a path to a directory may be left out. -/
theorem walk_withoutLastSlashes {cs : List Char} (hne : cs ≠ []) :
    d.walk (withoutLastSlashes cs) = .ok (.present a .directory) ↔
      d.walk cs = .ok (.present a .directory) := by
  obtain ⟨k, hcs, hkept⟩ := exists_withoutLastSlashes cs
  have hrooted : Path.isRooted cs = Path.isRooted (withoutLastSlashes cs) := by
    obtain ⟨c, kept, hcons⟩ := List.exists_cons_of_ne_nil (hkept hne)
    rw [hcons] at hcs ⊢
    rw [hcs]
    rfl
  have hpieces : Path.pieces cs = Path.pieces (withoutLastSlashes cs) ++ List.replicate k [] := by
    rw [← pieces_replicate_slash, ← hcs]
  unfold walk
  rw [hrooted, hpieces, followFrom_replicate_nil]

theorem Passable.withoutLastSlashes {cs : List Char} (h : Passable cs) :
    Passable (withoutLastSlashes cs) := by
  obtain ⟨k, hcs, -⟩ := exists_withoutLastSlashes cs
  obtain ⟨hnul, hshort⟩ := h
  rw [hcs] at hnul hshort
  rw [Text.byteLength_append] at hshort
  exact ⟨fun hc => hnul (by simp [hc]), by omega⟩

/-- A directory that could be made is where its path leads. -/
theorem walk_of_ensureDirectory {cs : List Char} (h : d.ensureDirectory cs = .ok e) :
    ∃ a, e.walk cs = .ok (.present a .directory) := by
  unfold ensureDirectory at h
  cases hmake : d.makeDirectory cs with
  | ok made =>
    -- It was not there.
    rw [hmake] at h
    obtain rfl := Except.ok.inj h
    unfold makeDirectory at hmake
    split at hmake
    · cases hmake
    · next a hfollow =>
      obtain rfl := Except.ok.inj hmake
      obtain ⟨hne, hp⟩ := passable_of_followChars hfollow
      rw [followChars_of_passable d hne hp] at hfollow
      have hne : cs ≠ [] := fun hnil => hne (by rw [hnil]; rfl)
      exact ⟨a, (walk_withoutLastSlashes hne).1 (followFrom_put hfollow)⟩
    · cases hmake
  | error cause =>
    simp only [hmake] at h
    split at h
    · next hdir =>
      obtain rfl := Except.ok.inj h
      unfold isDirectory at hdir
      split at hdir
      · next a hfollow =>
        obtain ⟨hne, hp⟩ := passable_of_followChars hfollow
        rw [followChars_of_passable d hne hp] at hfollow
        exact ⟨a, hfollow⟩
      · cases hdir
    · cases h

/-- A directory that is there is left as it is. -/
theorem ensureDirectory_of_walk {cs : List Char} (hne : cs ≠ []) (hp : Passable cs)
    (h : d.walk cs = .ok (.present a .directory)) : d.ensureDirectory cs = .ok d := by
  obtain ⟨-, -, hkept⟩ := exists_withoutLastSlashes cs
  have hfollow := (walk_withoutLastSlashes hne).2 h
  rw [← followChars_of_passable d (hkept hne) hp.withoutLastSlashes] at hfollow
  rw [← followChars_of_passable d hne hp] at h
  simp [ensureDirectory, makeDirectory, isDirectory, hfollow, h]

theorem ensureDirectory_of_makeFrom {path : List Char} {paths : List (List Char)}
    (h : d.makeFrom (path :: paths) = (.ok (), e)) :
    ∃ way, Disk.ensureDirectory way path = .ok e := by
  rw [makeFrom] at h
  split at h
  · next made hmade =>
    obtain rfl := (Prod.mk.inj h).2
    exact ⟨d, hmade⟩
  · split at h
    · cases h
    · next way _ =>
      split at h
      · next made hmade =>
        obtain rfl := (Prod.mk.inj h).2
        exact ⟨way, hmade⟩
      · cases h
  · cases h

end Disk

/-! ### The directory of a folder -/

namespace Folder

open Disk

variable {d e : Disk} {a : Address} {folder : String}

theorem directoryPart_of_ne (hne : folder ≠ "") :
    directoryPart folder = folder.toList ∧ (∃ cs, folder.toList = cs ++ ['/']) ∨
      directoryPart folder = folder.toList ++ ['/'] :=
  Path.asBase_of_ne (by simpa using hne)

/-- The system takes the path of a directory if it takes that of a file in it. -/
theorem passable_folder {name : List Char} (hp : Passable (directoryPart folder ++ name)) :
    Passable folder.toList := by
  by_cases hne : folder = ""
  · subst hne
    exact ⟨by simp, by decide⟩
  · obtain ⟨rest, hrest⟩ : ∃ rest, directoryPart folder = folder.toList ++ rest := by
      rcases directoryPart_of_ne hne with ⟨hpart, -⟩ | hpart
      · exact ⟨[], by simpa using hpart⟩
      · exact ⟨['/'], hpart⟩
    obtain ⟨hnul, hshort⟩ := hp
    rw [hrest, List.append_assoc] at hnul hshort
    rw [Text.byteLength_append] at hshort
    exact ⟨fun hc => hnul (by simp [hc]), by omega⟩

/-- The directory of a folder is where its path leads. -/
theorem leads_iff (hne : folder ≠ "") :
    Leads d (directoryPart folder) a ↔ d.walk folder.toList = .ok (.present a .directory) := by
  have hempty : folder.toList ≠ [] := by simpa using hne
  unfold Leads walk
  rcases directoryPart_of_ne hne with ⟨hpart, cs, hcs⟩ | hpart
  · -- The path ends in a slash, which is the end of the directory part already.
    rw [hpart, hcs, Path.pieces_append_char]
    simpa [Path.pieces] using followFrom_concat_nil.symm
  · obtain ⟨c, cs, hcs⟩ := List.exists_cons_of_ne_nil hempty
    rw [hpart, Path.pieces_append_char, hcs]
    simp [Path.pieces, Path.isRooted]

theorem leads_empty (d : Disk) : Leads d (directoryPart "") d.workingDirectory := rfl

/-- A directory that could be made is there. -/
theorem leads_of_makeDirectories (h : d.makeDirectories folder = (.ok (), e)) :
    ∃ a, Leads e (directoryPart folder) a := by
  by_cases hne : folder = ""
  · subst hne
    exact ⟨_, leads_empty e⟩
  · unfold makeDirectories at h
    split at h
    · next hnil => exact absurd (by simpa using Path.componentsOf_eq_nil hnil) hne
    · obtain ⟨way, hway⟩ := ensureDirectory_of_makeFrom h
      obtain ⟨a, ha⟩ := walk_of_ensureDirectory hway
      exact ⟨a, (leads_iff hne).2 ha⟩

/-- A directory that is there is left as it is. -/
theorem makeDirectories_of_leads (hp : Passable folder.toList)
    (h : Leads d (directoryPart folder) a) : d.makeDirectories folder = (.ok (), d) := by
  unfold makeDirectories
  split
  · rfl
  · next hcomponents =>
    have hne : folder ≠ "" := by
      rintro rfl
      exact hcomponents rfl
    have hempty : folder.toList ≠ [] := by simpa using hne
    rw [makeFrom, ensureDirectory_of_walk hempty hp ((leads_iff hne).1 h)]

/-- Where a directory was not there before it was made, the paths of its files led nowhere. -/
theorem leads_or_notFound (h : Extends d e) {dir name : List Char} (hdir : Path.IsDirectoryPart dir)
    (ha : Leads e dir a) (hslash : '/' ∉ name) (hname : name ≠ []) (hp : Passable (dir ++ name)) :
    Leads d dir a ∨ d.followChars (dir ++ name) = .error .notFound := by
  unfold Leads at ha ⊢
  rw [followChars_eq d hdir hslash hname hp, followFrom_append _ _ _ _ (by simp [hname])]
  rw [h.workingDirectory] at ha
  rcases h.followFrom ha with hd | hd | ⟨b, hd⟩
  · exact .inl hd
  · exact .inr (by rw [hd])
  · exact .inr (by rw [hd])

end Folder

end CodeCoach
