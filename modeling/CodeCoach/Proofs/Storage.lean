import CodeCoach.Proofs.Disk
import CodeCoach.Proofs.Json.Text
import CodeCoach.Storage

/-!
# What is kept can be had again

* `Folder.PlainKey`, the keys whose files are files of the folder;
* `Folder.Staged.set_eq`, `Folder.set_ok`: what a disk is like after a value was kept;
* `Folder.Holds`, for a key whose file has the text of a value, and `Folder.get?_eq_iff`;
* `Storage.get?_set`, `Storage.get?_set_of_ne`: a value that was kept is had again, and the values of
  other keys stay;
* `Storage.get?_setAll`, for several values at once.
-/

namespace CodeCoach

namespace Folder

open Disk

/-! ### Paths of a folder -/

/-- A key that gives the name of a file, also with the suffix of the staging file. -/
structure PlainKey (key : String) : Prop where
  noSlash : '/' ∉ key.toList
  ne_empty : key.toList ≠ []
  ne_dot : key.toList ≠ ['.']
  short : Text.byteLength (key.toList ++ ".json.tmp".toList) ≤ longestName

/-- The name of the file of a key. -/
def fileName (key : String) : List Char := key.toList ++ ".json".toList

/-- The name of the file that a value is written to first. -/
def tempName (key : String) : List Char := key.toList ++ ".json.tmp".toList

/-- The part of the paths of a folder before the name of a file. -/
def directoryPart (folder : String) : List Char := Path.asBase folder.toList

theorem isDirectoryPart (folder : String) : Path.IsDirectoryPart (directoryPart folder) :=
  Path.isDirectoryPart_asBase folder.toList

/-- The name that a path ends with. -/
theorem takeWhile_name {dir name : List Char} (hdir : Path.IsDirectoryPart dir) (hslash : '/' ∉ name) :
    ((dir ++ name).reverse.takeWhile (· != '/')).reverse = name := by
  rw [List.reverse_append, List.takeWhile_append_of_pos]
  · rcases hdir with rfl | ⟨cs, rfl⟩
    · simp
    · simp
  · intro c hc
    simpa using fun e : c = '/' => hslash (e ▸ List.mem_reverse.1 hc)

theorem noSlash_fileName {key : String} (h : '/' ∉ key.toList) : '/' ∉ fileName key := by
  simp [fileName, h]

/-- The path of a name in a directory. -/
theorem toList_join {name : String} (h : '/' ∉ name.toList) (folder : String) :
    (Path.join folder name).toList = directoryPart folder ++ name.toList := by
  rw [Path.join, String.toList_ofList, Path.joined_of_relative (Path.isRooted_of_not_mem h),
    directoryPart]

theorem toList_filePath {key : String} (h : '/' ∉ key.toList) (folder : String) :
    (filePath folder key).toList = directoryPart folder ++ fileName key := by
  have hname : (key ++ ".json").toList = fileName key := by simp [fileName]
  rw [filePath, toList_join (by rw [hname]; exact noSlash_fileName h), hname]

/-- The staging file of a key has the suffix of its file replaced. The empty key has a file without
suffix, and there another one is put behind. -/
theorem stagingName_of_ne {key : String} (hdot : key ≠ ".") :
    stagingName (fileName key) =
      (if key = "" then ".json".toList else key.toList) ++ ".json.tmp".toList := by
  have hreverse : (fileName key).reverse = ['n', 'o', 's', 'j', '.'] ++ key.toList.reverse := by
    simp [fileName]
  have hstem : (Path.splitName (fileName key)).1 =
      if key = "" then ".json".toList else key.toList := by
    unfold Path.splitName
    rw [hreverse]
    by_cases hempty : key = ""
    · simp [fileName, hempty]
    · simp [fileName, hempty]
  have hdots : (if key = "" then ".json".toList else key.toList) ≠ ['.'] := by
    split
    · decide
    · exact fun e => hdot (String.toList_inj.1 e)
  unfold stagingName
  rw [hstem, if_neg (by rwa [beq_iff_eq])]

theorem toList_stagingPath {key : String} (h : '/' ∉ key.toList) (folder : String) :
    (stagingPath folder key).toList = directoryPart folder ++ stagingName (fileName key) := by
  unfold stagingPath
  simp only [toList_filePath h folder, String.toList_ofList,
    takeWhile_name (isDirectoryPart folder) (noSlash_fileName h), List.length_append,
    Nat.add_sub_cancel, List.take_left]

namespace PlainKey

variable {key : String} (h : PlainKey key)

include h

theorem noSlash_fileName : '/' ∉ fileName key := Folder.noSlash_fileName h.noSlash

theorem noSlash_tempName : '/' ∉ tempName key := by
  simp [tempName, h.noSlash]

theorem isName_tempName : IsName (tempName key) :=
  isName_of_length (by simp [tempName]) h.short

theorem isName_fileName : IsName (fileName key) := by
  have hshort := h.short
  have hlength : Text.byteLength ".json".toList ≤ Text.byteLength ".json.tmp".toList := by decide
  rw [Text.byteLength_append] at hshort
  refine isName_of_length (by simp [fileName]) ?_
  rw [fileName, Text.byteLength_append]
  omega

theorem toList_filePath (folder : String) :
    (filePath folder key).toList = directoryPart folder ++ fileName key :=
  Folder.toList_filePath h.noSlash folder

theorem stagingName_fileName : stagingName (fileName key) = tempName key := by
  rw [stagingName_of_ne (by simpa [← String.toList_inj] using h.ne_dot),
    if_neg (by simpa using h.ne_empty)]
  rfl

theorem toList_stagingPath (folder : String) :
    (stagingPath folder key).toList = directoryPart folder ++ tempName key := by
  rw [Folder.toList_stagingPath h.noSlash, h.stagingName_fileName]

end PlainKey

theorem tempName_ne_fileName (key other : String) : tempName key ≠ fileName other := by
  intro e
  have hlast := congrArg List.getLast? e
  simp [tempName, fileName] at hlast

theorem fileName_inj {key other : String} : fileName key = fileName other ↔ key = other := by
  constructor
  · intro e
    exact String.toList_inj.1 (List.append_cancel_right e)
  · rintro rfl
    rfl

/-! ### Writing -/

/-- A value that was kept went through all three steps. -/
theorem set_steps {d : Disk} {folder key : String} {v : Json} (h : (set d folder key v).1 = .ok ()) :
    ∃ d1 d2 d3, d.makeDirectories folder = (.ok (), d1) ∧
      d1.write (stagingPath folder key) (.text v.sorted.pretty) = .ok d2 ∧
      d2.replace (stagingPath folder key) (filePath folder key) = .ok d3 ∧
      (set d folder key v).2 = d3 := by
  unfold set at h ⊢
  split at h
  · cases h
  rename_i d1 hmake
  split at h
  · cases h
  rename_i d2 hwrite
  split at h
  · cases h
  rename_i d3 hreplace
  exact ⟨d1, d2, d3, hmake, hwrite, hreplace, rfl⟩

/-- A key whose file is a file of the folder, with the name that it is staged under. -/
structure Staged (key : String) (temp : List Char) : Prop where
  noSlash : '/' ∉ key.toList
  stagingName : stagingName (fileName key) = temp
  isName : IsName (fileName key)
  noSlash_temp : '/' ∉ temp
  isName_temp : IsName temp
  ne : fileName key ≠ temp

theorem PlainKey.staged {key : String} (h : PlainKey key) : Staged key (tempName key) where
  noSlash := h.noSlash
  stagingName := h.stagingName_fileName
  isName := h.isName_fileName
  noSlash_temp := h.noSlash_tempName
  isName_temp := h.isName_tempName
  ne := Ne.symm (tempName_ne_fileName key key)

namespace Staged

variable {d e : Disk} {folder key : String} {temp : List Char} (h : Staged key temp)

include h

theorem toList_stagingPath (folder : String) :
    (stagingPath folder key).toList = directoryPart folder ++ temp := by
  rw [Folder.toList_stagingPath h.noSlash, h.stagingName]

/-- In a directory that is there a value is kept, unless one of the two files is a directory: the
file of the key has the text of the value, and the staging file is gone. -/
theorem set_eq {a : Address} (v : Json) (hpass : Passable (directoryPart folder ++ fileName key))
    (hpass' : Passable (directoryPart folder ++ temp))
    (hmake : d.makeDirectories folder = (.ok (), e)) (ha : Leads e (directoryPart folder) a)
    (hfile : e.node? (a ++ [fileName key]) ≠ some .directory)
    (htemp : e.node? (a ++ [temp]) ≠ some .directory) :
    ∃ f, set d folder key v = (.ok (), f) ∧ KeepsDirectories e f ∧
      ∀ b, f.node? b =
        if b = a ++ [fileName key] then some (.file (.text v.sorted.pretty))
        else if b = a ++ [temp] then none
        else e.node? b := by
  have hdir := isDirectoryPart folder
  have hslash := noSlash_fileName h.noSlash
  have hstaging := h.toList_stagingPath folder
  have hpath := toList_filePath h.noSlash folder
  have hfile_ne : a ++ [fileName key] ≠ [] := by simp
  have htemp_ne : a ++ [temp] ≠ [] := by simp
  have hne : a ++ [fileName key] ≠ a ++ [temp] := by simpa using h.ne
  -- The staging file is written, and the directory is where it was.
  have hwrite := write_of_takes (ha.takes hdir h.noSlash_temp h.isName_temp hstaging hpass' htemp)
    (.text v.sorted.pretty)
  have hnode := node?_put e htemp_ne (.file (.text v.sorted.pretty))
  have hput := keepsDirectories_put htemp_ne htemp (.file (.text v.sorted.pretty))
  have ha' := hput.leads ha
  -- It takes the place of the file of the key.
  have hsource := ha'.follow hdir h.noSlash_temp h.isName_temp hstaging hpass'
  rw [target_eq_present.2 ⟨rfl, by rw [hnode, if_pos rfl]⟩] at hsource
  have hreplace := replace_of_takes hsource
    (ha'.takes hdir hslash h.isName hpath hpass (by rwa [hnode, if_neg hne]))
  have hclear := keepsDirectories_clear htemp_ne (by
    rw [hnode, if_pos rfl]
    exact fun hdirectory => by cases hdirectory)
  have hlast := keepsDirectories_put hfile_ne (by
    rwa [node?_clear _ htemp_ne, if_neg hne, hnode, if_neg hne]) (.file (.text v.sorted.pretty))
  refine ⟨_, ?_, (hput.trans hclear).trans hlast, fun b => ?_⟩
  · unfold set
    simp only [hmake, hwrite, hreplace]
  · rw [node?_put _ hfile_ne, node?_clear _ htemp_ne, hnode]
    split
    · rfl
    · split <;> rfl

end Staged

/-- What a disk is like after a value was kept: the directories were made, the file of the key has
the text of the value, and the staging file is gone. -/
theorem set_ok {d : Disk} {folder key : String} {v : Json} (hk : PlainKey key)
    (h : (set d folder key v).1 = .ok ()) :
    Passable (directoryPart folder ++ fileName key) ∧
      KeepsDirectories d (set d folder key v).2 ∧
      ∃ a, Leads (set d folder key v).2 (directoryPart folder) a ∧
        ∀ b, (set d folder key v).2.node? b =
          if b = a ++ [fileName key] then some (.file (.text v.sorted.pretty))
          else if b = a ++ [tempName key] then none
          else (d.makeDirectories folder).2.node? b := by
  have hdir := isDirectoryPart folder
  have hmade := (makeDirectories_extends d folder).keepsDirectories
  obtain ⟨d1, d2, d3, hmake, hwrite, hreplace, -⟩ := set_steps h
  rw [hmake] at hmade ⊢
  -- Both files were put in one directory, in the place of no directory.
  obtain ⟨_, htakes, rfl⟩ := write_eq_ok hwrite
  obtain ⟨hpass', a, ha, rfl, htemp⟩ := leads_of_takes hdir hk.noSlash_tempName
    hk.isName_tempName (hk.toList_stagingPath folder) htakes
  obtain ⟨_, _, _, -, htakes', -⟩ := replace_eq_ok hreplace
  obtain ⟨hpass, a', ha', rfl, hfile⟩ := leads_of_takes hdir hk.noSlash_fileName
    hk.isName_fileName (hk.toList_filePath folder) htakes'
  obtain rfl := ((keepsDirectories_put (by simp) htemp _).leads ha).unique ha'
  rw [node?_put d1 (by simp), if_neg (by simpa using hk.staged.ne)] at hfile
  obtain ⟨f, hset, hkeeps, hnode⟩ := hk.staged.set_eq v hpass hpass' hmake ha hfile htemp
  rw [hset]
  exact ⟨hpass, hmade.trans hkeeps, a, hkeeps.leads ha, hnode⟩

/-- The file of the key has the text of a value. -/
def Holds (d : Disk) (folder key : String) (v : Json) : Prop :=
  Passable (directoryPart folder ++ fileName key) ∧
    ∃ a text, Leads d (directoryPart folder) a ∧
      d.node? (a ++ [fileName key]) = some (.file (.text text)) ∧ Json.parse? text = some v

theorem get?_eq_iff {d : Disk} {folder key : String} {v : Json} (hk : PlainKey key) :
    get? d folder key = .ok (some v) ↔ Holds d folder key v := by
  have hread (text : String) := readText_eq_ok_iff (d := d) (s := text) (isDirectoryPart folder)
    hk.noSlash_fileName hk.isName_fileName (hk.toList_filePath folder)
  unfold get? Holds
  constructor
  · intro h
    split at h
    · cases h
    · cases h
    · rename_i text htext
      obtain ⟨hp, a, ha, hnode⟩ := (hread text).1 htext
      split at h
      · rename_i w hparse
        obtain rfl := Option.some.inj (Except.ok.inj h)
        exact ⟨hp, a, text, ha, hnode, hparse⟩
      · cases h
  · rintro ⟨hp, a, text, ha, hnode, hparse⟩
    rw [(hread text).2 ⟨hp, a, ha, hnode⟩]
    simp only [hparse]

theorem holds_set {d : Disk} {folder key : String} {v : Json} (hk : PlainKey key)
    (hv : Json.Legible 127 v) (h : (set d folder key v).1 = .ok ()) :
    Holds (set d folder key v).2 folder key v.sorted := by
  obtain ⟨hp, -, a, ha, hnode⟩ := set_ok hk h
  refine ⟨hp, a, _, ha, ?_, Json.parse?_pretty hv⟩
  rw [hnode, if_pos rfl]

theorem Holds.set {d : Disk} {folder key other : String} {v w : Json} (hk : PlainKey key)
    (hne : other ≠ key) (h : (set d folder key v).1 = .ok ()) (hw : Holds d folder other w) :
    Holds (set d folder key v).2 folder other w := by
  obtain ⟨-, hkeeps, a, ha, hnode⟩ := set_ok hk h
  obtain ⟨hp, a', text, ha', hfile, hparse⟩ := hw
  obtain rfl := ha.unique (hkeeps.leads ha')
  refine ⟨hp, a, text, ha, ?_, hparse⟩
  -- The file is none of the two that change.
  rw [hnode, if_neg, if_neg]
  · exact (makeDirectories_extends d folder).node? _ _ hfile
  · simpa using Ne.symm (tempName_ne_fileName key other)
  · simpa [fileName_inj] using hne

end Folder

/-! ### Any storage -/

namespace Storage

open Folder (PlainKey)

/-- Requests for the value of a key do not fail out of hand. -/
def Serves (s : Storage) (key : String) : Prop :=
  ∀ values faults, s.medium = .memory values faults → Faults.hits faults.reads key = false

/-- Keeping a value changes neither the sort of medium nor its faults. -/
theorem serves_set {s : Storage} {key other : String} {v : Json} :
    (s.set other v).2.Serves key ↔ s.Serves key := by
  obtain ⟨disk, medium⟩ := s
  cases medium with
  | folder path =>
    constructor
    · rintro - _ _ ⟨⟩
    · rintro - _ _ ⟨⟩
  | memory values faults =>
    have hmedium : ∃ values', (set ⟨disk, .memory values faults⟩ other v).2.medium =
        .memory values' faults := by
      unfold Storage.set
      simp only
      split
      · exact ⟨_, rfl⟩
      · exact ⟨_, rfl⟩
    obtain ⟨values', hvalues⟩ := hmedium
    constructor
    · rintro h _ _ e
      obtain ⟨rfl, rfl⟩ := Medium.memory.inj e
      exact h values' faults hvalues
    · rintro h _ _ e
      obtain ⟨rfl, rfl⟩ := Medium.memory.inj (hvalues.symm.trans e)
      exact h values faults rfl

theorem set_folder (disk : Disk) (path key : String) (v : Json) :
    set ⟨disk, .folder path⟩ key v =
      ((Folder.set disk path key v).1, ⟨(Folder.set disk path key v).2, .folder path⟩) := by
  unfold Storage.set
  rfl

theorem get?_folder (disk : Disk) (path key : String) :
    get? ⟨disk, .folder path⟩ key = Folder.get? disk path key := by
  unfold Storage.get?
  rfl

theorem get?_set {s : Storage} {key : String} {v : Json} (hk : PlainKey key)
    (hv : Json.Legible 127 v) (hs : s.Serves key) (h : (s.set key v).1 = .ok ()) :
    (s.set key v).2.get? key = .ok (some v.sorted) := by
  obtain ⟨disk, medium⟩ := s
  cases medium with
  | memory values faults =>
    have hreads := hs values faults rfl
    unfold Storage.set at h ⊢
    simp only at h ⊢
    split at h
    · cases h
    · rename_i hwrites
      rw [if_neg hwrites]
      simp only [Storage.get?, hreads, Bool.false_eq_true, if_false]
      rw [Table.get?_set, if_pos rfl]
  | folder path =>
    rw [set_folder] at h ⊢
    rw [get?_folder, Folder.get?_eq_iff hk]
    exact Folder.holds_set hk hv h

theorem get?_set_of_ne {s : Storage} {key other : String} {v w : Json} (hk : PlainKey key)
    (ho : PlainKey other) (hne : other ≠ key) (h : (s.set key v).1 = .ok ())
    (hw : s.get? other = .ok (some w)) : (s.set key v).2.get? other = .ok (some w) := by
  obtain ⟨disk, medium⟩ := s
  cases medium with
  | memory values faults =>
    unfold Storage.set
    simp only
    split
    · exact hw
    · simp only [Storage.get?] at hw ⊢
      rw [Table.get?_set, if_neg hne]
      exact hw
  | folder path =>
    rw [set_folder] at h ⊢
    rw [get?_folder, Folder.get?_eq_iff ho] at hw ⊢
    exact hw.set hk hne h

/-! ### Several values -/

theorem setAll_cons (s : Storage) (key : String) (v : Json) (rest : List (String × Json)) :
    s.setAll ((key, v) :: rest) =
      (firstError (s.set key v).1 ((s.set key v).2.setAll rest).1,
        ((s.set key v).2.setAll rest).2) := rfl

theorem firstError_eq_ok {a b : Except StorageError Unit} :
    firstError a b = .ok () ↔ a = .ok () ∧ b = .ok () := by
  cases a <;> simp [firstError]

theorem get?_setAll_of_not_mem {s : Storage} {other : String} {w : Json} (ho : PlainKey other)
    {kvs : List (String × Json)} (hk : ∀ f ∈ kvs, PlainKey f.1) (hne : other ∉ kvs.map Prod.fst)
    (h : (s.setAll kvs).1 = .ok ()) (hw : s.get? other = .ok (some w)) :
    (s.setAll kvs).2.get? other = .ok (some w) := by
  induction kvs generalizing s with
  | nil => exact hw
  | cons f rest ih =>
    obtain ⟨key, v⟩ := f
    obtain ⟨hkey, hrest⟩ : other ≠ key ∧ other ∉ rest.map Prod.fst := by simpa using hne
    rw [setAll_cons] at h ⊢
    obtain ⟨hfirst, hothers⟩ := firstError_eq_ok.1 h
    exact ih (fun g hg => hk g (by simp [hg])) hrest hothers
      (get?_set_of_ne (hk (key, v) (by simp)) ho hkey hfirst hw)

theorem serves_setAll {s : Storage} {key : String} {kvs : List (String × Json)} :
    (s.setAll kvs).2.Serves key ↔ s.Serves key := by
  induction kvs generalizing s with
  | nil => exact Iff.rfl
  | cons f rest ih => exact ih.trans serves_set

/-- Where all of several values were kept, each of them is had again. -/
theorem get?_setAll {s : Storage} {kvs : List (String × Json)} (hk : ∀ f ∈ kvs, PlainKey f.1)
    (hnames : (kvs.map Prod.fst).Nodup) (hv : ∀ f ∈ kvs, Json.Legible 127 f.2)
    (hs : ∀ f ∈ kvs, s.Serves f.1) (h : (s.setAll kvs).1 = .ok ()) :
    ∀ f ∈ kvs, (s.setAll kvs).2.get? f.1 = .ok (some f.2.sorted) := by
  induction kvs generalizing s with
  | nil => simp
  | cons g rest ih =>
    obtain ⟨key, v⟩ := g
    obtain ⟨hkey, hrest⟩ := List.nodup_cons.1 hnames
    rw [setAll_cons] at h ⊢
    obtain ⟨hfirst, hothers⟩ := firstError_eq_ok.1 h
    intro f hf
    rcases List.mem_cons.1 hf with rfl | hf
    · -- The first value was kept first and is left alone by the others.
      have hplain := hk (key, v) (by simp)
      have hkept := get?_set hplain (hv (key, v) (by simp)) (hs (key, v) (by simp)) hfirst
      exact get?_setAll_of_not_mem hplain (fun g hg => hk g (by simp [hg])) hkey hothers hkept
    · exact ih (fun g hg => hk g (by simp [hg])) hrest (fun g hg => hv g (by simp [hg]))
        (fun g hg => serves_set.2 (hs g (by simp [hg]))) hothers f hf

end Storage

end CodeCoach
