import CodeCoach.Disk
import CodeCoach.Proofs.Path

/-!
# What operations on files leave alone

* `Disk.node?_put`, `Disk.node?_clear`: the nodes after a change;
* `Disk.Extends`, `Disk.KeepsDirectories`, two ways in which a disk may go on: nothing is lost, or no
  directory is lost. Paths that lead to a node, or to a directory, then lead there still;
* `Disk.walk`, the way of a path that the system takes as it is written;
* `Disk.Leads`, for the part of a path before its last name, and `Disk.followChars_eq`: paths that
  differ in their last name alone lead to places in one directory;
* `Disk.rel_makeDirectories`: what the making of one directory does to a disk, the making of several
  does, with `Disk.makeDirectories_extends`: nothing is lost.
-/

namespace CodeCoach.Disk

open CodeCoach.Path (IsDirectoryPart)

/-! ### Nodes -/

theorem node?_of_ne_nil (d : Disk) {a : Address} (h : a ≠ []) : d.node? a = d.nodes.get? a := by
  simp [node?, h]

@[simp] theorem node?_nil (d : Disk) : d.node? [] = some .directory := rfl

theorem node?_put (d : Disk) {a : Address} (h : a ≠ []) (n : Node) (b : Address) :
    (d.put a n).node? b = if b = a then some n else d.node? b := by
  by_cases hb : b = []
  · subst hb
    rw [node?_nil, node?_nil, if_neg (Ne.symm h)]
  · rw [node?_of_ne_nil _ hb, node?_of_ne_nil _ hb]
    exact Table.get?_set _ _ _ _

theorem node?_clear (d : Disk) {a : Address} (h : a ≠ []) (b : Address) :
    (d.clear a).node? b = if b = a then none else d.node? b := by
  by_cases hb : b = []
  · subst hb
    rw [node?_nil, node?_nil, if_neg (Ne.symm h)]
  · rw [node?_of_ne_nil _ hb, node?_of_ne_nil _ hb]
    exact Table.get?_erase _ _ _

/-- What an address is to a path that leads there. -/
def target (d : Disk) (a : Address) : Target :=
  match d.node? a with
  | some n => .present a n
  | none => .absent a

theorem target_eq_present {d : Disk} {a b : Address} {n : Node} :
    d.target a = .present b n ↔ a = b ∧ d.node? a = some n := by
  unfold target
  cases d.node? a with
  | none => simp
  | some m => simp

theorem target_eq_absent {d : Disk} {a b : Address} :
    d.target a = .absent b ↔ a = b ∧ d.node? a = none := by
  unfold target
  cases d.node? a with
  | none => simp
  | some m => simp

/-! ### Paths -/

/-- A name that is neither empty nor one or two dots, and not too long. -/
structure IsName (name : List Char) : Prop where
  ne_nil : name ≠ []
  ne_dot : name ≠ ['.']
  ne_dots : name ≠ ['.', '.']
  short : Text.byteLength name ≤ longestName

theorem isName_of_length {name : List Char} (h : 2 < name.length)
    (hshort : Text.byteLength name ≤ longestName) : IsName name where
  ne_nil := fun e => by simp [e] at h
  ne_dot := fun e => by simp [e] at h
  ne_dots := fun e => by simp [e] at h
  short := hshort

theorem followFrom_last (d : Disk) (a : Address) {name : List Char} (h : IsName name) :
    d.followFrom a .directory [name] = .ok (d.target (a ++ [name])) := by
  have hshort := h.short
  rw [followFrom]
  simp only [bne_self_eq_false, Bool.false_eq_true, if_false, beq_iff_eq, h.ne_nil, h.ne_dot,
    h.ne_dots, Bool.or_eq_true, or_self, Nat.not_lt.2 hshort]
  unfold target
  cases d.node? (a ++ [name]) <;> rfl

/-- A file is followed by nothing. -/
theorem followFrom_file {d : Disk} {here : Address} {content : Content} {ps : List (List Char)}
    {t : Target} (h : d.followFrom here (.file content) ps = .ok t) :
    ps = [] ∧ t = .present here (.file content) := by
  cases ps with
  | nil => exact ⟨rfl, (Except.ok.inj h).symm⟩
  | cons p ps => simp [followFrom] at h

/-- Where a path leads to an absent place, nothing is there. -/
theorem node?_of_followFrom_absent {d : Disk} {here a : Address} {node : Node}
    {ps : List (List Char)} (h : d.followFrom here node ps = .ok (.absent a)) :
    a ≠ [] ∧ d.node? a = none := by
  fun_induction followFrom d here node ps with
  | case1 => cases h
  | case2 => cases h
  | case3 _ _ _ _ _ _ ih => exact ih h
  | case4 _ _ _ _ _ _ _ ih => exact ih h
  | case5 => cases h
  | case6 _ _ _ _ _ _ _ _ _ _ ih => exact ih h
  | case7 here _ piece _ _ _ _ _ hnone _ =>
    obtain rfl := Target.absent.inj (Except.ok.inj h)
    exact ⟨by simp, hnone⟩
  | case8 => cases h

/-! ### Disks that go on -/

/-- Everything that is on the one disk is on the other. -/
structure Extends (d e : Disk) : Prop where
  node? : ∀ a n, d.node? a = some n → e.node? a = some n
  workingDirectory : e.workingDirectory = d.workingDirectory

/-- Every directory of the one disk is a directory of the other. -/
structure KeepsDirectories (d e : Disk) : Prop where
  node? : ∀ a, d.node? a = some .directory → e.node? a = some .directory
  workingDirectory : e.workingDirectory = d.workingDirectory

theorem Extends.refl (d : Disk) : Extends d d := ⟨fun _ _ h => h, rfl⟩

theorem Extends.trans {d e f : Disk} (h : Extends d e) (k : Extends e f) : Extends d f :=
  ⟨fun a n ha => k.node? a n (h.node? a n ha), k.workingDirectory.trans h.workingDirectory⟩

theorem Extends.keepsDirectories {d e : Disk} (h : Extends d e) : KeepsDirectories d e :=
  ⟨fun a ha => h.node? a _ ha, h.workingDirectory⟩

theorem KeepsDirectories.trans {d e f : Disk} (h : KeepsDirectories d e)
    (k : KeepsDirectories e f) : KeepsDirectories d f :=
  ⟨fun a ha => k.node? a (h.node? a ha), k.workingDirectory.trans h.workingDirectory⟩

theorem extends_put {d : Disk} {a : Address} (ha : a ≠ []) (h : d.node? a = none) (n : Node) :
    Extends d (d.put a n) := by
  refine ⟨fun b m hb => ?_, rfl⟩
  rw [node?_put d ha, if_neg]
  · exact hb
  · rintro rfl
    rw [h] at hb
    cases hb

theorem keepsDirectories_put {d : Disk} {a : Address} (ha : a ≠ [])
    (h : d.node? a ≠ some .directory) (n : Node) : KeepsDirectories d (d.put a n) := by
  refine ⟨fun b hb => ?_, rfl⟩
  rw [node?_put d ha, if_neg]
  · exact hb
  · rintro rfl
    exact h hb

theorem keepsDirectories_clear {d : Disk} {a : Address} (ha : a ≠ [])
    (h : d.node? a ≠ some .directory) : KeepsDirectories d (d.clear a) := by
  refine ⟨fun b hb => ?_, rfl⟩
  rw [node?_clear d ha, if_neg]
  · exact hb
  · rintro rfl
    exact h hb

/-- A path to a node leads through directories before it. -/
theorem KeepsDirectories.followFrom {d e : Disk} (h : KeepsDirectories d e) {here a : Address}
    {n : Node} (hn : d.node? a = some n → e.node? a = some n) {ps : List (List Char)}
    (hd : d.followFrom here .directory ps = .ok (.present a n)) :
    e.followFrom here .directory ps = .ok (.present a n) := by
  induction ps generalizing here with
  | nil => exact hd
  | cons p ps ih =>
    rw [Disk.followFrom] at hd ⊢
    simp only [bne_self_eq_false, Bool.false_eq_true, if_false] at hd ⊢
    by_cases hdot : (p == [] || p == ['.']) = true
    · rw [if_pos hdot] at hd ⊢
      exact ih hd
    rw [if_neg hdot] at hd ⊢
    by_cases hdots : (p == ['.', '.']) = true
    · rw [if_pos hdots] at hd ⊢
      exact ih hd
    rw [if_neg hdots] at hd ⊢
    by_cases hlong : longestName < Text.byteLength p
    · rw [if_pos hlong] at hd
      cases hd
    rw [if_neg hlong] at hd ⊢
    cases hnode : d.node? (here ++ [p]) with
    | none =>
      -- From a place that is absent no path leads to a node.
      rw [hnode] at hd
      simp only [] at hd
      split at hd <;> cases hd
    | some next =>
      rw [hnode] at hd
      cases next with
      | directory =>
        rw [h.node? _ hnode]
        exact ih hd
      | file content =>
        -- A file ends the path, so it is the node that the path leads to.
        obtain ⟨rfl, ht⟩ := followFrom_file hd
        obtain ⟨rfl, rfl⟩ := Target.present.inj ht
        rw [hn hnode]
        rfl

/-- A path that goes on after its first pieces. -/
theorem followFrom_append (d : Disk) (here : Address) (node : Node) (ps : List (List Char))
    {qs : List (List Char)} (hq : qs.all List.isEmpty = false) :
    d.followFrom here node (ps ++ qs) =
      match d.followFrom here node ps with
      | .ok (.present a n) => d.followFrom a n qs
      | .ok (.absent _) => .error .notFound
      | .error e => .error e := by
  fun_induction followFrom d here node ps with
  | case1 => rfl
  | case2 here node p ps hnode =>
    rw [List.cons_append, followFrom, if_pos hnode]
  | case3 here node p ps hnode hdot ih =>
    rw [List.cons_append, followFrom, if_neg hnode, if_pos hdot, ih]
  | case4 here node p ps hnode hdot hdots ih =>
    rw [List.cons_append, followFrom, if_neg hnode, if_neg hdot, if_pos hdots, ih]
  | case5 here node p ps hnode hdot hdots hlong =>
    rw [List.cons_append, followFrom, if_neg hnode, if_neg hdot, if_neg hdots, if_pos hlong]
  | case6 here node p ps hnode hdot hdots hlong next hnext ih =>
    rw [List.cons_append, followFrom, if_neg hnode, if_neg hdot, if_neg hdots, if_neg hlong, hnext]
    exact ih
  | case7 here node p ps hnode hdot hdots hlong hnext hempty =>
    rw [List.cons_append, followFrom, if_neg hnode, if_neg hdot, if_neg hdots, if_neg hlong, hnext]
    simp [hq]
  | case8 here node p ps hnode hdot hdots hlong hnext hempty =>
    rw [List.cons_append, followFrom, if_neg hnode, if_neg hdot, if_neg hdots, if_neg hlong, hnext]
    simp [hq]

/-! ### Paths that differ in their last name -/

/-- The path leads to a directory, before the name that comes last. -/
def Leads (d : Disk) (dir : List Char) (a : Address) : Prop :=
  d.followFrom (if Path.isRooted dir then [] else d.workingDirectory) .directory
    (Path.pieces dir).dropLast = .ok (.present a .directory)

theorem Leads.unique {d : Disk} {dir : List Char} {a b : Address} (ha : Leads d dir a)
    (hb : Leads d dir b) : a = b := by
  unfold Leads at ha hb
  rw [ha] at hb
  exact (Target.present.inj (Except.ok.inj hb)).1

theorem KeepsDirectories.leads {d e : Disk} (h : KeepsDirectories d e) {dir : List Char}
    {a : Address} (ha : Leads d dir a) : Leads e dir a := by
  unfold Leads at ha ⊢
  rw [h.workingDirectory]
  exact h.followFrom (h.node? a) ha

/-- The system takes the path as it is written. -/
structure Passable (cs : List Char) : Prop where
  noNul : '\x00' ∉ cs
  short : Text.byteLength cs ≤ longestPath

instance (cs : List Char) : Decidable (Passable cs) :=
  decidable_of_iff ('\x00' ∉ cs ∧ Text.byteLength cs ≤ longestPath)
    ⟨fun ⟨h, h'⟩ => ⟨h, h'⟩, fun h => ⟨h.noNul, h.short⟩⟩

/-- Where the pieces of a path lead, from where it begins. -/
def walk (d : Disk) (cs : List Char) : Except FileError Target :=
  d.followFrom (if Path.isRooted cs then [] else d.workingDirectory) .directory
    (Path.pieces cs)

theorem followChars_of_passable (d : Disk) {cs : List Char} (hne : cs ≠ []) (hp : Passable cs) :
    d.followChars cs = d.walk cs := by
  have hnul : cs.contains '\x00' = false := by simpa using hp.noNul
  have hempty : cs.isEmpty = false := by simpa using hne
  unfold followChars walk
  simp only [hnul, hempty, Bool.false_eq_true, if_false, if_neg (Nat.not_lt.2 hp.short)]

/-- A path that leads anywhere is one that the system takes. -/
theorem passable_of_followChars {d : Disk} {cs : List Char} {t : Target}
    (h : d.followChars cs = .ok t) : cs ≠ [] ∧ Passable cs := by
  unfold Disk.followChars at h
  split at h
  · cases h
  rename_i hnul
  split at h
  · cases h
  rename_i hempty
  split at h
  · cases h
  rename_i hshort
  exact ⟨by simpa using hempty, by simpa using hnul, Nat.not_lt.1 hshort⟩

/-- A path by its last name, once the rest of it is known to be fit for the system. -/
theorem followChars_eq (d : Disk) {dir name : List Char} (hdir : IsDirectoryPart dir)
    (hslash : '/' ∉ name) (hname : name ≠ []) (hp : Passable (dir ++ name)) :
    d.followChars (dir ++ name) =
      d.followFrom (if Path.isRooted dir then [] else d.workingDirectory) .directory
        ((Path.pieces dir).dropLast ++ [name]) := by
  rw [followChars_of_passable d (by simp [hname]) hp, walk, Path.isRooted_name hdir hslash,
    Path.pieces_name hdir hslash]

theorem Leads.followChars {d : Disk} {dir name : List Char} {a : Address} (h : Leads d dir a)
    (hdir : IsDirectoryPart dir) (hslash : '/' ∉ name) (hname : IsName name)
    (hp : Passable (dir ++ name)) :
    d.followChars (dir ++ name) = .ok (d.target (a ++ [name])) := by
  rw [followChars_eq d hdir hslash hname.ne_nil hp,
    followFrom_append _ _ _ _ (by simp [hname.ne_nil])]
  unfold Leads at h
  rw [h]
  exact followFrom_last d a hname

/-- The other way round: a path that leads anywhere leads to its name in a directory. -/
theorem leads_of_followChars {d : Disk} {dir name : List Char} (hdir : IsDirectoryPart dir)
    (hslash : '/' ∉ name) (hname : IsName name) {t : Target}
    (h : d.followChars (dir ++ name) = .ok t) :
    Passable (dir ++ name) ∧ ∃ a, Leads d dir a ∧ t = d.target (a ++ [name]) := by
  obtain ⟨-, hp⟩ := passable_of_followChars h
  refine ⟨hp, ?_⟩
  rw [followChars_eq d hdir hslash hname.ne_nil hp,
    followFrom_append _ _ _ _ (by simp [hname.ne_nil])] at h
  unfold Leads
  cases hf : d.followFrom (if Path.isRooted dir then [] else d.workingDirectory) .directory
      (Path.pieces dir).dropLast with
  | error e =>
    rw [hf] at h
    cases h
  | ok t' =>
    rw [hf] at h
    cases t' with
    | absent a => cases h
    | present a n =>
      cases n with
      | file content => exact absurd (followFrom_file h).1 (by simp)
      | directory =>
        -- One name is left, which leads to what is there.
        refine ⟨a, rfl, ?_⟩
        have h : d.followFrom a .directory [name] = .ok t := h
        rw [followFrom_last d a hname] at h
        exact (Except.ok.inj h).symm

/-! ### Files -/

/-- The path leads to a place that a file can be put in: to a file or to no node. -/
def Takes (d : Disk) (path : String) (a : Address) : Prop :=
  d.follow path = .ok (.absent a) ∨ ∃ old, d.follow path = .ok (.present a (.file old))

theorem write_eq_ok {d e : Disk} {path : String} {content : Content}
    (h : d.write path content = .ok e) : ∃ a, d.Takes path a ∧ e = d.put a (.file content) := by
  unfold write at h
  split at h
  · cases h
  · rename_i a hfollow
    exact ⟨a, Or.inl hfollow, (Except.ok.inj h).symm⟩
  · cases h
  · rename_i a old hfollow
    exact ⟨a, Or.inr ⟨old, hfollow⟩, (Except.ok.inj h).symm⟩

theorem write_of_takes {d : Disk} {path : String} {a : Address} (h : d.Takes path a)
    (content : Content) : d.write path content = .ok (d.put a (.file content)) := by
  unfold write
  rcases h with h | ⟨old, h⟩ <;> rw [h]

theorem replace_of_takes {d : Disk} {source path : String} {old new : Address} {content : Content}
    (hsource : d.follow source = .ok (.present old (.file content))) (h : d.Takes path new) :
    d.replace source path = .ok ((d.clear old).put new (.file content)) := by
  unfold replace
  rcases h with h | ⟨lost, h⟩ <;> rw [hsource, h]

theorem replace_eq_ok {d e : Disk} {source path : String} (h : d.replace source path = .ok e) :
    ∃ old content new, d.follow source = .ok (.present old (.file content)) ∧ d.Takes path new ∧
      e = (d.clear old).put new (.file content) := by
  unfold replace at h
  split at h
  · cases h
  · cases h
  · cases h
  · cases h
  · cases h
  · rename_i old content new lost hsource hpath
    exact ⟨old, content, new, hsource, Or.inr ⟨lost, hpath⟩, (Except.ok.inj h).symm⟩
  · rename_i old content new hsource hpath
    exact ⟨old, content, new, hsource, Or.inl hpath, (Except.ok.inj h).symm⟩

section

variable {d : Disk} {dir name : List Char} (hdir : IsDirectoryPart dir) (hslash : '/' ∉ name)
  (hname : IsName name) {path : String} (hpath : path.toList = dir ++ name)

include hdir hslash hname hpath

theorem Leads.follow {a : Address} (h : Leads d dir a) (hp : Passable (dir ++ name)) :
    d.follow path = .ok (d.target (a ++ [name])) := by
  rw [Disk.follow, hpath, h.followChars hdir hslash hname hp]

/-- A file can be put wherever there is no directory. -/
theorem Leads.takes {a : Address} (h : Leads d dir a) (hp : Passable (dir ++ name))
    (hnode : d.node? (a ++ [name]) ≠ some .directory) : d.Takes path (a ++ [name]) := by
  unfold Takes
  rw [h.follow hdir hslash hname hpath hp]
  unfold target
  cases hnow : d.node? (a ++ [name]) with
  | none => exact .inl rfl
  | some n =>
    cases n with
    | directory => exact absurd hnow hnode
    | file old => exact .inr ⟨old, rfl⟩

theorem leads_of_takes {b : Address} (h : d.Takes path b) :
    Passable (dir ++ name) ∧
      ∃ a, Leads d dir a ∧ b = a ++ [name] ∧ d.node? b ≠ some .directory := by
  unfold Takes follow at h
  rw [hpath] at h
  rcases h with h | ⟨old, h⟩
  · obtain ⟨hp, a, ha, ht⟩ := leads_of_followChars hdir hslash hname h
    obtain ⟨rfl, hnode⟩ := target_eq_absent.1 ht.symm
    exact ⟨hp, a, ha, rfl, by simp [hnode]⟩
  · obtain ⟨hp, a, ha, ht⟩ := leads_of_followChars hdir hslash hname h
    obtain ⟨rfl, hnode⟩ := target_eq_present.1 ht.symm
    exact ⟨hp, a, ha, rfl, by simp [hnode]⟩

theorem readText_eq_ok_iff {s : String} :
    d.readText path = .ok s ↔
      Passable (dir ++ name) ∧
        ∃ a, Leads d dir a ∧ d.node? (a ++ [name]) = some (.file (.text s)) := by
  unfold readText follow
  rw [hpath]
  constructor
  · intro h
    split at h
    · cases h
    · cases h
    · cases h
    · cases h
    · rename_i s' hfollow
      obtain rfl := Except.ok.inj h
      obtain ⟨hp, a, ha, ht⟩ := leads_of_followChars hdir hslash hname hfollow
      exact ⟨hp, a, ha, (target_eq_present.1 ht.symm).2⟩
  · rintro ⟨hp, a, ha, hnode⟩
    rw [ha.followChars hdir hslash hname hp, target_eq_present.2 ⟨rfl, hnode⟩]

end

/-! ### Making directories -/

theorem followChars_absent {d : Disk} {cs : List Char} {a : Address}
    (h : d.followChars cs = .ok (.absent a)) : a ≠ [] ∧ d.node? a = none := by
  unfold followChars at h
  split at h
  · cases h
  split at h
  · cases h
  split at h
  · cases h
  exact node?_of_followFrom_absent h

section

variable {P : Disk → Disk → Prop}
  (hput : ∀ d a, a ≠ [] → d.node? a = none → P d (d.put a .directory))

include hput

theorem rel_makeDirectory {d e : Disk} {cs : List Char} (h : d.makeDirectory cs = .ok e) :
    P d e := by
  unfold makeDirectory at h
  split at h
  · cases h
  · rename_i a hfollow
    obtain ⟨ha, hnone⟩ := followChars_absent hfollow
    obtain rfl := Except.ok.inj h
    exact hput d a ha hnone
  · cases h

variable (hrefl : ∀ d, P d d)

include hrefl

theorem rel_ensureDirectory {d e : Disk} {cs : List Char} (h : d.ensureDirectory cs = .ok e) :
    P d e := by
  unfold ensureDirectory at h
  split at h
  · rename_i made hmade
    obtain rfl := Except.ok.inj h
    exact rel_makeDirectory hput hmade
  · split at h
    · obtain rfl := Except.ok.inj h
      exact hrefl d
    · cases h

variable (htrans : ∀ d e f, P d e → P e f → P d f)

include htrans

theorem rel_makeFrom (d : Disk) (paths : List (List Char)) : P d (d.makeFrom paths).2 := by
  induction paths with
  | nil => exact hrefl d
  | cons path parents ih =>
    rw [makeFrom]
    split
    · rename_i made hmade
      exact rel_ensureDirectory hput hrefl hmade
    · split
      · rename_i e way hway
        rw [hway] at ih
        exact ih
      · rename_i way hway
        rw [hway] at ih
        split
        · rename_i made hmade
          exact htrans _ _ _ ih (rel_ensureDirectory hput hrefl hmade)
        · exact ih
    · exact hrefl d

/-- What holds of a disk before and after one directory is made holds before and after several are,
as far as they can be. -/
theorem rel_makeDirectories (d : Disk) (path : String) : P d (d.makeDirectories path).2 := by
  unfold makeDirectories
  split
  · exact hrefl d
  · exact rel_makeFrom hput hrefl htrans d _

end

theorem makeDirectories_extends (d : Disk) (path : String) :
    Extends d (d.makeDirectories path).2 :=
  rel_makeDirectories (fun _ _ ha hnone => extends_put ha hnone .directory) Extends.refl
    (fun _ _ _ => Extends.trans) d path

/-- Making directories makes no files. -/
theorem file_makeDirectories (d : Disk) (path : String) (a : Address) (content : Content) :
    (d.makeDirectories path).2.node? a = some (.file content) ↔
      d.node? a = some (.file content) := by
  refine rel_makeDirectories
    (P := fun d e => e.node? a = some (.file content) ↔ d.node? a = some (.file content))
    (fun d b hb hnone => ?_) (fun _ => Iff.rfl) (fun _ _ _ h h' => h'.trans h) d path
  rw [node?_put d hb]
  split
  · next h => simp [h, hnone]
  · rfl

end CodeCoach.Disk
