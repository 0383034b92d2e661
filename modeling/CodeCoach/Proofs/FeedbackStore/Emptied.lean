import CodeCoach.Proofs.Engine.Afresh
import CodeCoach.Proofs.Storage.Directories

/-!
# Directories with an empty store

* `Folder.Overwrites`: the files of some keys were written in one directory, and nothing else has
  changed; `Storage.overwrites_setAll`: so it is after writes that all succeed;
* `FeedbackStore.EmptyAt`, a directory with the files of a store that has learned nothing, and
  `FeedbackStore.stored_of_emptyAt`: nothing is read from there;
* `FeedbackStore.Steady`, a disk on which no directory and no empty store is lost, and
  `FeedbackStore.steady_reset`: so it is after any reset, also one that fails half way;
* `FeedbackStore.Empties`, all that a reset does to a disk.
-/

namespace CodeCoach

/-! ### Several files of one directory -/

namespace Folder

open Disk

variable {d e made : Disk} {a : Address} {folder key : String} {kvs : List (String × Json)}

theorem tempName_inj {key other : String} : tempName key = tempName other ↔ key = other := by
  constructor
  · intro e
    exact String.toList_inj.1 (List.append_cancel_right e)
  · rintro rfl
    rfl

/-- What is kept in a folder is the same if the directory is made first. -/
theorem set_of_makeDirectories (hp : Passable folder.toList)
    (hmake : d.makeDirectories folder = (.ok (), made)) (key : String) (v : Json) :
    set d folder key v = set made folder key v := by
  obtain ⟨a, ha⟩ := leads_of_makeDirectories hmake
  unfold set
  rw [hmake, makeDirectories_of_leads hp ha]

/-- In one directory the files of some keys have been written and their staging files used up, and
nothing else has changed. -/
structure Overwrites (a : Address) (kvs : List (String × Json)) (d e : Disk) : Prop where
  written : ∀ f ∈ kvs, e.node? (a ++ [fileName f.1]) = some (.file (.text f.2.sorted.pretty))
  staged : ∀ f ∈ kvs, e.node? (a ++ [tempName f.1]) = none
  other : ∀ b, (∀ f ∈ kvs, b ≠ a ++ [fileName f.1] ∧ b ≠ a ++ [tempName f.1]) →
    e.node? b = d.node? b

theorem Overwrites.nil (a : Address) (d : Disk) : Overwrites a [] d d :=
  ⟨by simp, by simp, fun _ _ => rfl⟩

/-- One more file is written before the others. -/
theorem Overwrites.cons {first : Disk} {v : Json} (hkey : key ∉ kvs.map Prod.fst)
    (hfirst : ∀ b, first.node? b =
      if b = a ++ [fileName key] then some (.file (.text v.sorted.pretty))
      else if b = a ++ [tempName key] then none
      else d.node? b)
    (hrest : Overwrites a kvs first e) : Overwrites a ((key, v) :: kvs) d e := by
  have hne : ∀ f ∈ kvs, key ≠ f.1 := fun f hf h => hkey (List.mem_map.2 ⟨f, hf, h.symm⟩)
  -- Neither file of the first key is one of the others'.
  have hfile : e.node? (a ++ [fileName key]) = first.node? (a ++ [fileName key]) := by
    refine hrest.other _ fun f hf => ⟨?_, ?_⟩
    · simpa [fileName_inj] using hne f hf
    · simpa using Ne.symm (tempName_ne_fileName f.1 key)
  have htemp : e.node? (a ++ [tempName key]) = first.node? (a ++ [tempName key]) := by
    refine hrest.other _ fun f hf => ⟨?_, ?_⟩
    · simpa using tempName_ne_fileName key f.1
    · simpa [tempName_inj] using hne f hf
  refine ⟨?_, ?_, fun b hb => ?_⟩
  · intro f hf
    rcases List.mem_cons.1 hf with rfl | hf
    · rw [hfile, hfirst, if_pos rfl]
    · exact hrest.written f hf
  · intro f hf
    rcases List.mem_cons.1 hf with rfl | hf
    · rw [htemp, hfirst, if_neg (by simpa using tempName_ne_fileName key key), if_pos rfl]
    · exact hrest.staged f hf
  · obtain ⟨hnot, hnots⟩ := List.forall_mem_cons.1 hb
    rw [hrest.other b hnots, hfirst, if_neg hnot.1, if_neg hnot.2]

end Folder

namespace Storage

open Disk
open Folder (PlainKey Overwrites)

variable {d e : Disk} {a : Address} {folder : String} {kvs : List (String × Json)}

/-- Several writes do to a disk what each of them does. -/
theorem rel_setAll {P : Disk → Disk → Prop} (hrefl : ∀ d, P d d)
    (htrans : ∀ d e f, P d e → P e f → P d f)
    (hset : ∀ d, ∀ f ∈ kvs, P d (Folder.set d folder f.1 f.2).2) (d : Disk) :
    P d (setAll ⟨d, .folder folder⟩ kvs).2.disk := by
  induction kvs generalizing d with
  | nil => exact hrefl d
  | cons f rest ih =>
    rw [setAll_cons, set_folder]
    exact htrans _ _ _ (hset d f (by simp)) (ih (fun d g hg => hset d g (by simp [hg])) _)

theorem workingDirectory_setAll (hk : ∀ f ∈ kvs, PlainKey f.1) (d : Disk) :
    (setAll ⟨d, .folder folder⟩ kvs).2.disk.workingDirectory = d.workingDirectory :=
  rel_setAll (P := fun d e => e.workingDirectory = d.workingDirectory) (fun _ => rfl)
    (fun _ _ _ h h' => h'.trans h)
    (fun _ f hf => (Folder.keepsDirectories_set (hk f hf)).workingDirectory) d

/-- Writes to a directory that is there, which all succeed. -/
theorem overwrites_of_leads (hk : ∀ f ∈ kvs, PlainKey f.1) (hnames : (kvs.map Prod.fst).Nodup)
    (hp : Passable folder.toList) (ha : Leads d (Folder.directoryPart folder) a)
    (hok : (setAll ⟨d, .folder folder⟩ kvs).1 = .ok ()) :
    Leads (setAll ⟨d, .folder folder⟩ kvs).2.disk (Folder.directoryPart folder) a ∧
      Overwrites a kvs d (setAll ⟨d, .folder folder⟩ kvs).2.disk := by
  induction kvs generalizing d with
  | nil => exact ⟨ha, .nil a d⟩
  | cons f rest ih =>
    obtain ⟨key, v⟩ := f
    obtain ⟨hkey, hrest⟩ := List.nodup_cons.1 hnames
    rw [setAll_cons, set_folder] at hok ⊢
    obtain ⟨hfirst, hothers⟩ := firstError_eq_ok.1 hok
    -- The first write goes to the same directory, which it has not to make.
    obtain ⟨-, hkeeps, a', ha', hnode⟩ := Folder.set_ok (hk (key, v) (by simp)) hfirst
    obtain rfl := ha'.unique (hkeeps.leads ha)
    rw [Folder.makeDirectories_of_leads hp ha] at hnode
    obtain ⟨hleads, hover⟩ := ih (fun g hg => hk g (by simp [hg])) hrest ha' hothers
    exact ⟨hleads, hover.cons hkey hnode⟩

/-- Writes that all succeed make the directory if need be, and write their files there. -/
theorem overwrites_setAll (hne : kvs ≠ []) (hk : ∀ f ∈ kvs, PlainKey f.1)
    (hnames : (kvs.map Prod.fst).Nodup) (hok : (setAll ⟨d, .folder folder⟩ kvs).1 = .ok ()) :
    Passable folder.toList ∧ (d.makeDirectories folder).1 = .ok () ∧
      ∃ a, Leads (setAll ⟨d, .folder folder⟩ kvs).2.disk (Folder.directoryPart folder) a ∧
        Overwrites a kvs (d.makeDirectories folder).2 (setAll ⟨d, .folder folder⟩ kvs).2.disk := by
  obtain ⟨⟨key, v⟩, rest, rfl⟩ := List.exists_cons_of_ne_nil hne
  have hfirst : (Folder.set d folder key v).1 = .ok () := by
    rw [setAll_cons, set_folder] at hok
    exact (firstError_eq_ok.1 hok).1
  have hp : Passable folder.toList :=
    Folder.passable_folder (Folder.set_ok (hk (key, v) (by simp)) hfirst).1
  obtain ⟨made, -, -, hmake, -⟩ := Folder.set_steps hfirst
  have hsame : setAll ⟨d, .folder folder⟩ ((key, v) :: rest) =
      setAll ⟨made, .folder folder⟩ ((key, v) :: rest) := by
    rw [setAll_cons, setAll_cons, set_folder, set_folder, Folder.set_of_makeDirectories hp hmake]
  rw [hsame] at hok ⊢
  obtain ⟨a, ha⟩ := Folder.leads_of_makeDirectories hmake
  rw [hmake]
  exact ⟨hp, rfl, a, overwrites_of_leads hk hnames hp ha hok⟩

/-- What is kept in memory touches no file. -/
theorem disk_setAll_memory (d : Disk) (values : Table String Json) (faults : Faults)
    (kvs : List (String × Json)) : (setAll ⟨d, .memory values faults⟩ kvs).2.disk = d := by
  induction kvs generalizing values with
  | nil => rfl
  | cons f rest ih =>
    rw [setAll_cons, set_memory]
    split
    · exact ih values
    · exact ih _

end Storage

/-! ### Empty stores -/

namespace FeedbackStore

open Disk
open Folder (Overwrites fileName tempName directoryPart)

variable {d e : Disk} {a : Address} {folder : String}

/-- A directory has the files of a store that has learned nothing. -/
def EmptyAt (d : Disk) (a : Address) : Prop :=
  ∀ f ∈ values .empty, d.node? (a ++ [fileName f.1]) = some (.file (.text f.2.sorted.pretty))

/-- Nothing is read from such a directory, also where the system does not take the paths of its
files. -/
theorem stored_of_emptyAt (h : EmptyAt d a) (ha : Leads d (directoryPart folder) a) :
    stored ⟨d, .folder folder⟩ = .empty := by
  refine stored_eq_empty_of_get? fun f hf w hw => ?_
  rw [Storage.get?_folder, Folder.get?_eq_iff (plainKey_of_mem_values f hf)] at hw
  obtain ⟨-, b, text, hb, hnode, hparse⟩ := hw
  obtain rfl := hb.unique ha
  obtain rfl : text = f.2.sorted.pretty := by simpa [h f hf] using hnode.symm
  rw [Json.parse?_pretty (legible_values storable_empty f hf)] at hparse
  exact (Option.some.inj hparse).symm

theorem stored_memory (d : Disk) : stored ⟨d, .memory .empty .none⟩ = .empty :=
  stored_eq_empty_of_get? fun _ _ _ hw => by cases hw

/-- No directory is lost, and no empty store in the directory at an address. -/
structure Steady (a : Address) (d e : Disk) : Prop where
  directory : ∀ b, d.node? b = some .directory → e.node? b = some .directory
  empty : EmptyAt d a → EmptyAt e a

theorem Steady.refl (a : Address) (d : Disk) : Steady a d d := ⟨fun _ h => h, id⟩

theorem Steady.trans {f : Disk} (h : Steady a d e) (h' : Steady a e f) : Steady a d f :=
  ⟨fun b hb => h'.directory b (h.directory b hb), fun hd => h'.empty (h.empty hd)⟩

/-- A value of the empty store may be written anywhere: where it takes the place of another one, that
is the same. -/
theorem emptyAt_set {f : String × Json} (hf : f ∈ values .empty) (h : EmptyAt d a) :
    EmptyAt (Folder.set d folder f.1 f.2).2 a := by
  intro g hg
  have hplain := plainKey_of_mem_values f hf
  have htemp : fileName g.1 ≠ tempName f.1 := Ne.symm (Folder.tempName_ne_fileName f.1 g.1)
  by_cases hown : (Folder.set d folder f.1 f.2).1 = .ok () ∧ g.1 = f.1
  · obtain ⟨hok, hkey⟩ := hown
    obtain rfl : g = f :=
      List.inj_on_of_nodup_map (by rw [names_values]; decide) hg hf hkey
    obtain ⟨-, -, b, -, hnode⟩ := Folder.set_ok hplain hok
    rw [hnode]
    split
    · rfl
    · rw [if_neg (by simp [htemp])]
      exact (makeDirectories_extends d folder).node? _ _ (h g hg)
  · rw [Folder.file_set hplain htemp]
    · exact h g hg
    · intro hok hname
      exact hown ⟨hok, Folder.fileName_inj.1 hname⟩

/-- A file that is none of a store may go. -/
theorem steady_clear {b : Address} {name : List Char} (hname : ∀ key, fileName key ≠ name)
    (hnode : d.node? (b ++ [name]) ≠ some .directory) : Steady a d (d.clear (b ++ [name])) := by
  have hne : b ++ [name] ≠ [] := by simp
  refine ⟨(keepsDirectories_clear hne hnode).node?, fun h f hf => ?_⟩
  rw [node?_clear d hne, if_neg (by simp [hname])]
  exact h f hf

theorem reset_eq (s : FeedbackStore) :
    s.reset = ((s.storage.setAll (values .empty)).1, ⟨(s.storage.setAll (values .empty)).2, .empty⟩) :=
  persist_eq ⟨s.storage, .empty⟩

/-- A reset, whatever comes of it, writes nothing but empty stores. -/
theorem steady_reset (a : Address) (s : FeedbackStore) :
    Steady a s.storage.disk s.reset.2.storage.disk := by
  obtain ⟨⟨d, medium⟩, l⟩ := s
  rw [reset_eq]
  cases medium with
  | memory vs faults =>
    show Steady a d (Storage.setAll ⟨d, .memory vs faults⟩ (values .empty)).2.disk
    rw [Storage.disk_setAll_memory]
    exact .refl a d
  | folder folder =>
    refine Storage.rel_setAll (Steady.refl a) (fun _ _ _ => Steady.trans) (fun d f hf => ?_) d
    exact ⟨(Folder.keepsDirectories_set (plainKey_of_mem_values f hf)).node?, emptyAt_set hf⟩

/-! ### Resets -/

/-- What a reset does to a disk: it makes the directory if it is not there, writes the three files of
an empty store in it, and uses up their staging files. -/
structure Empties (folder : String) (a : Address) (d e : Disk) : Prop where
  /-- The directory can be made. -/
  made : (d.makeDirectories folder).1 = .ok ()
  /-- It is where the path leads. -/
  leads : Leads e (directoryPart folder) a
  /-- It is only made if it is not there. -/
  present : ∀ b, Leads d (directoryPart folder) b → (d.makeDirectories folder).2 = d
  /-- Nothing is lost when it is made. -/
  grows : Extends d (d.makeDirectories folder).2
  /-- No file is made with it. -/
  files : ∀ b content, (d.makeDirectories folder).2.node? b = some (.file content) →
    d.node? b = some (.file content)
  /-- The rest of what happens is that the three files are written. -/
  overwrites : Overwrites a (values .empty) (d.makeDirectories folder).2 e
  workingDirectory : e.workingDirectory = d.workingDirectory

theorem Empties.emptyAt (h : Empties folder a d e) : EmptyAt e a := h.overwrites.written

/-- A reset that could be written. -/
theorem empties_reset {s : FeedbackStore} (hfolder : s.storage.medium = .folder folder)
    (hok : s.reset.1 = .ok ()) : ∃ a, Empties folder a s.storage.disk s.reset.2.storage.disk := by
  obtain ⟨⟨d, medium⟩, l⟩ := s
  obtain rfl : medium = .folder folder := hfolder
  rw [reset_eq] at hok ⊢
  simp only at hok ⊢
  have hnames : ((values .empty).map Prod.fst).Nodup := by
    rw [names_values]
    decide
  obtain ⟨hp, hmade, a, hleads, hover⟩ :=
    Storage.overwrites_setAll (List.cons_ne_nil _ _) plainKey_of_mem_values hnames hok
  exact ⟨a, hmade, hleads, fun b hb => by rw [Folder.makeDirectories_of_leads hp hb],
    makeDirectories_extends d folder, fun b content => (file_makeDirectories d folder b content).1,
    hover, Storage.workingDirectory_setAll plainKey_of_mem_values d⟩

end FeedbackStore

end CodeCoach
