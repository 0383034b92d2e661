import CodeCoach.Proofs.Storage.Directories
import Mathlib.Data.List.Induction
import Mathlib.Logic.Function.Basic

/-!
# A folder serves requests as a memory does

* `Storage.Request`, `Storage.answers` and `Storage.after`, for a sequence of requests, and
  `lastSet?`, the value last set under a key;
* `Folder.FileKey`, the keys whose files have names and paths that the system takes;
* `Folder.Mirrors`, what ties a disk to values: the directory of a folder has one file for each key
  with a value and nothing else, or is yet to be made;
* `Folder.mirrors_set`, `Folder.mirrors_set_dot`: what one request does to that. The key of a single
  dot is the one under which nothing can be set, as its staging file would be the parent directory;
* `Storage.folder_serves_as_memory`: the gets of any sequence.
-/

namespace CodeCoach

/-! ### Requests -/

namespace Storage

/-- What a storage is asked for. -/
inductive Request
  | get (key : String)
  | set (key : String) (value : Json)

namespace Request

def key : Request → String
  | get key => key
  | set key _ => key

/-- The value that a request sets under a key. -/
def value? (key : String) : Request → Option Json
  | get _ => none
  | set other v => if other = key then some v.sorted else none

end Request

/-- The answer to a request, which is a value for a get alone, and the storage after it. -/
def answer (s : Storage) : Request → Except StorageError (Option Json) × Storage
  | .get key => (s.get? key, s)
  | .set key v => ((s.set key v).1.map fun () => none, (s.set key v).2)

/-- The answers to requests. -/
def answers (s : Storage) : List Request → List (Except StorageError (Option Json))
  | [] => []
  | r :: rs => (s.answer r).1 :: answers (s.answer r).2 rs

/-- The storage after requests. -/
def after (s : Storage) (rs : List Request) : Storage := rs.foldl (fun s r => (s.answer r).2) s

/-- The value that was last set under a key. -/
def lastSet? (rs : List Request) (key : String) : Option Json :=
  (rs.filterMap (Request.value? key)).getLast?

theorem after_concat (s : Storage) (rs : List Request) (r : Request) :
    s.after (rs ++ [r]) = ((s.after rs).answer r).2 := by
  simp [after]

theorem lastSet?_get (rs : List Request) (key other : String) :
    lastSet? (rs ++ [.get key]) other = lastSet? rs other := by
  simp [lastSet?, Request.value?]

theorem lastSet?_set (rs : List Request) (key other : String) (v : Json) :
    lastSet? (rs ++ [.set key v]) other =
      if other = key then some v.sorted else lastSet? rs other := by
  by_cases h : key = other
  · simp [lastSet?, Request.value?, h]
  · simp [lastSet?, Request.value?, h, Ne.symm h]

/-- A value that was last set is one that was set. -/
theorem exists_of_lastSet? {rs : List Request} {key : String} {v : Json}
    (h : lastSet? rs key = some v) : ∃ w, .set key w ∈ rs ∧ v = w.sorted := by
  obtain ⟨r, hr, hvalue⟩ := List.mem_filterMap.1 (List.mem_of_getLast? h)
  cases r with
  | get other => cases hvalue
  | set other w =>
    obtain ⟨rfl, rfl⟩ : other = key ∧ w.sorted = v := by simpa [Request.value?] using hvalue
    exact ⟨w, hr, rfl⟩

end Storage

/-! ### Keys and files -/

namespace Folder

open Disk

theorem exists_stem {key : String} (hdot : key ≠ ".") :
    ∃ stem, stagingName (fileName key) = stem ++ ".json.tmp".toList ∧
      ('/' ∉ key.toList → '/' ∉ stem) := by
  refine ⟨_, stagingName_of_ne hdot, fun hslash => ?_⟩
  split
  · decide
  · exact hslash

/-- No file is staged where the file of a key is. -/
theorem stagingName_ne_fileName {key : String} (hdot : key ≠ ".") (other : String) :
    stagingName (fileName key) ≠ fileName other := by
  intro e
  obtain ⟨stem, hstem, -⟩ := exists_stem hdot
  have hlast := congrArg List.getLast? e
  rw [hstem] at hlast
  simp [fileName] at hlast

/-- A key that gives the name of a file, and is short enough that the system takes the path of the
file and the path that it is staged at. -/
structure FileKey (folder key : String) : Prop where
  noSlash : '/' ∉ key.toList
  short : ∀ name ∈ [fileName key, stagingName (fileName key)], Text.byteLength name ≤ longestName
  passable : ∀ name ∈ [fileName key, stagingName (fileName key)],
    Passable (directoryPart folder ++ name)

instance (folder key : String) : Decidable (FileKey folder key) :=
  decidable_of_iff
    ('/' ∉ key.toList ∧
      (∀ name ∈ [fileName key, stagingName (fileName key)],
        Text.byteLength name ≤ longestName) ∧
      ∀ name ∈ [fileName key, stagingName (fileName key)],
        Passable (directoryPart folder ++ name))
    ⟨fun ⟨h, h', h''⟩ => ⟨h, h', h''⟩, fun h => ⟨h.noSlash, h.short, h.passable⟩⟩

namespace FileKey

variable {folder key : String} (h : FileKey folder key)

include h

theorem isName_fileName : IsName (fileName key) :=
  isName_of_length (by simp [fileName]) (h.short _ (by simp))

theorem staged (hdot : key ≠ ".") : Staged key (stagingName (fileName key)) := by
  have hshort := h.short _ (List.mem_cons_of_mem _ List.mem_cons_self)
  have hne := stagingName_ne_fileName hdot key
  obtain ⟨stem, hstem, hslash⟩ := exists_stem hdot
  refine ⟨h.noSlash, rfl, h.isName_fileName, ?_, isName_of_length ?_ hshort, hne.symm⟩
  · rw [hstem]
    simp [hslash h.noSlash]
  · rw [hstem]
    simp

/-- The system takes the path of the directory as well. -/
theorem passable_folder : Passable folder.toList :=
  Folder.passable_folder (h.passable (fileName key) (by simp))

end FileKey

/-! ### What a directory has -/

variable {d e : Disk} {folder key : String} {value? : String → Option Json}

/-- The directory at an address has one file for each key with a value, and nothing else. -/
def HasFiles (d : Disk) (a : Address) (value? : String → Option Json) : Prop :=
  ∀ name rest n, d.node? (a ++ name :: rest) = some n ↔
    ∃ key v, value? key = some v ∧ name = fileName key ∧ rest = [] ∧ n = .file (.text v.pretty)

/-- The directory of a folder can be made, as far as it is missing, and then it is empty. -/
structure Vacant (d : Disk) (folder : String) : Prop where
  made : (d.makeDirectories folder).1 = .ok ()
  empty : ∀ a, Leads (d.makeDirectories folder).2 (directoryPart folder) a →
    ∀ name rest, (d.makeDirectories folder).2.node? (a ++ name :: rest) = none

/-- The directory of a folder has the files of some values. -/
inductive Mirrors (d : Disk) (folder : String) (value? : String → Option Json) : Prop
  | missing (hvacant : Vacant d folder) (hnone : ∀ key, value? key = none)
  | present {a : Address} (ha : Leads d (directoryPart folder) a) (hfiles : HasFiles d a value?)

theorem HasFiles.node?_fileName {a : Address} (h : HasFiles d a value?) (key : String) :
    d.node? (a ++ [fileName key]) = (value? key).map fun v => .file (.text v.pretty) := by
  cases hvalue : value? key with
  | none =>
    rw [Option.map_none, Option.eq_none_iff_forall_ne_some]
    intro n hn
    obtain ⟨other, v, hv, hname, -⟩ := (h _ _ _).1 hn
    rw [← fileName_inj.1 hname, hvalue] at hv
    cases hv
  | some v => exact (h _ _ _).2 ⟨key, v, hvalue, rfl, rfl, rfl⟩

theorem HasFiles.node?_stagingName {a : Address} (h : HasFiles d a value?) (hdot : key ≠ ".") :
    d.node? (a ++ [stagingName (fileName key)]) = none := by
  rw [Option.eq_none_iff_forall_ne_some]
  intro n hn
  obtain ⟨other, v, -, hname, -⟩ := (h _ _ _).1 hn
  exact stagingName_ne_fileName hdot other hname

/-- Once it was made, the directory is there. -/
theorem Mirrors.make (h : Mirrors d folder value?) (hp : Passable folder.toList) :
    ∃ e a, d.makeDirectories folder = (.ok (), e) ∧ Leads e (directoryPart folder) a ∧
      HasFiles e a value? := by
  cases h with
  | missing hvacant hnone =>
    have hmake : d.makeDirectories folder = (.ok (), (d.makeDirectories folder).2) :=
      Prod.ext hvacant.made rfl
    obtain ⟨a, ha⟩ := leads_of_makeDirectories hmake
    refine ⟨_, a, hmake, ha, fun name rest n => ?_⟩
    simp [hvacant.empty a ha, hnone]
  | present ha hfiles => exact ⟨d, _, makeDirectories_of_leads hp ha, ha, hfiles⟩

/-! ### One request -/

/-- The values after the file of a key got the text of a value, and a staging file is gone. -/
theorem HasFiles.set {a : Address} (h : HasFiles d a value?) (hdot : key ≠ ".") {v : Json}
    (hnode : ∀ b, e.node? b =
      if b = a ++ [fileName key] then some (.file (.text v.pretty))
      else if b = a ++ [stagingName (fileName key)] then none
      else d.node? b) : HasFiles e a (Function.update value? key (some v)) := by
  have hnode : ∀ b, e.node? b =
      if b = a ++ [fileName key] then some (.file (.text v.pretty)) else d.node? b := by
    intro b
    rw [hnode]
    split
    · rfl
    · split
      · next hb => rw [hb, h.node?_stagingName hdot]
      · rfl
  intro name rest n
  rw [hnode]
  by_cases hb : a ++ name :: rest = a ++ [fileName key]
  · obtain ⟨rfl, rfl⟩ : name = fileName key ∧ rest = [] := by simpa using hb
    rw [if_pos rfl]
    constructor
    · intro hn
      exact ⟨key, v, by simp, rfl, rfl, (Option.some.inj hn).symm⟩
    · rintro ⟨other, w, hw, hname, -, rfl⟩
      obtain rfl := fileName_inj.1 hname
      obtain rfl : v = w := by simpa using hw
      rfl
  · rw [if_neg hb, h]
    -- No other file is that of the key.
    refine exists₂_congr fun other w => and_congr_left ?_
    rintro ⟨rfl, rfl, -⟩
    have hother : other ≠ key := by
      rintro rfl
      exact hb rfl
    rw [Function.update_of_ne hother]

/-- A set under any key but the dot puts the value there. -/
theorem mirrors_set (h : Mirrors d folder value?) (hk : FileKey folder key) (hdot : key ≠ ".")
    (v : Json) : (set d folder key v).1 = .ok () ∧
      ∃ a, Leads (set d folder key v).2 (directoryPart folder) a ∧
        HasFiles (set d folder key v).2 a (Function.update value? key (some v.sorted)) := by
  obtain ⟨e, a, hmake, ha, hfiles⟩ := h.make hk.passable_folder
  have hfile : e.node? (a ++ [fileName key]) ≠ some .directory := by
    rw [hfiles.node?_fileName]
    cases value? key <;> simp
  have htemp : e.node? (a ++ [stagingName (fileName key)]) ≠ some .directory := by
    simp [hfiles.node?_stagingName hdot]
  obtain ⟨f, hset, hkeeps, hnode⟩ := (hk.staged hdot).set_eq v (hk.passable _ (by simp))
    (hk.passable _ (by simp)) hmake ha hfile htemp
  rw [hset]
  exact ⟨rfl, a, hkeeps.leads ha, hfiles.set hdot hnode⟩

/-- The staging file of the dot would be the parent directory: a set under it fails and leaves the
values alone. -/
theorem mirrors_set_dot (h : Mirrors d folder value?) (hk : FileKey folder ".") (v : Json) :
    (set d folder "." v).1 = .error (.file "." .isDirectory) ∧
      ∃ a, Leads (set d folder "." v).2 (directoryPart folder) a ∧
        HasFiles (set d folder "." v).2 a value? := by
  obtain ⟨e, a, hmake, ha, hfiles⟩ := h.make hk.passable_folder
  have hstaging : stagingName (fileName ".") = ['.', '.'] := by decide
  have hparent : e.followChars (directoryPart folder ++ ['.', '.']) =
      .ok (.present a.dropLast .directory) := by
    rw [followChars_eq e (isDirectoryPart folder) (by decide) (by decide)
      (hk.passable _ (by simp [hstaging])), followFrom_append _ _ _ _ (by decide)]
    unfold Leads at ha
    rw [ha]
    rfl
  have hwrite : e.write (stagingPath folder ".") (.text v.sorted.pretty) = .error .isDirectory := by
    unfold write follow
    rw [toList_stagingPath hk.noSlash, hstaging, hparent]
  have hset : set d folder "." v = (.error (.file "." .isDirectory), e) := by
    unfold set
    simp only [hmake, hwrite]
  rw [hset]
  exact ⟨rfl, a, ha, hfiles⟩

/-- A get finds nothing where the directory is missing or empty. -/
theorem Vacant.get? (h : Vacant d folder) (hk : FileKey folder key) :
    Folder.get? d folder key = .ok none := by
  have hdir := isDirectoryPart folder
  have hslash := noSlash_fileName hk.noSlash
  have hpassable := hk.passable (fileName key) (by simp)
  have hextends := makeDirectories_extends d folder
  obtain ⟨a, ha⟩ := leads_of_makeDirectories (Prod.ext h.made rfl)
  have hread : d.readText (filePath folder key) = .error .notFound := by
    unfold readText Disk.follow
    rw [toList_filePath hk.noSlash]
    rcases leads_or_notFound hextends hdir ha hslash hk.isName_fileName.ne_nil hpassable with
      hd | hd
    · have hnode : d.node? (a ++ [fileName key]) = none := by
        rw [Option.eq_none_iff_forall_ne_some]
        intro n hn
        have hmade := hextends.node? _ _ hn
        rw [h.empty a ha] at hmade
        cases hmade
      rw [hd.followChars hdir hslash hk.isName_fileName hpassable,
        target_eq_absent.2 ⟨rfl, hnode⟩]
    · rw [hd]
  unfold Folder.get?
  rw [hread]

/-- A get finds the value of the key, if that is what its text reads as. -/
theorem Mirrors.get? (h : Mirrors d folder value?) (hk : FileKey folder key)
    (hreads : ∀ v, value? key = some v → Json.parse? v.pretty = some v) :
    Folder.get? d folder key = .ok (value? key) := by
  cases h with
  | missing hvacant hnone => rw [hvacant.get? hk, hnone]
  | present ha hfiles =>
    have hnode := hfiles.node?_fileName key
    have hfollow := ha.follow (isDirectoryPart folder) (noSlash_fileName hk.noSlash)
      hk.isName_fileName (toList_filePath hk.noSlash folder) (hk.passable _ (by simp))
    cases hvalue : value? key with
    | none =>
      rw [hvalue] at hnode
      rw [target_eq_absent.2 ⟨rfl, hnode⟩] at hfollow
      have hread : d.readText (filePath folder key) = .error .notFound := by
        rw [readText, hfollow]
      unfold Folder.get?
      rw [hread]
    | some v =>
      rw [hvalue] at hnode
      rw [target_eq_present.2 ⟨rfl, hnode⟩] at hfollow
      have hread : d.readText (filePath folder key) = .ok v.pretty := by
        rw [readText, hfollow]
      unfold Folder.get?
      rw [hread]
      simp only [hreads v hvalue]

end Folder

/-! ### Sequences of requests -/

namespace Storage

open Folder (FileKey HasFiles Mirrors Vacant)

variable {d : Disk} {folder : String} {rs : List Request}

/-- What a folder keeps of the values that were set. -/
def kept? (rs : List Request) (key : String) : Option Json :=
  if key = "." then none else lastSet? rs key

/-- Where nothing was set under the dot, everything is kept. -/
theorem kept?_eq_lastSet? (h : ∀ v, .set "." v ∉ rs) (key : String) :
    kept? rs key = lastSet? rs key := by
  unfold kept?
  split
  · next hdot =>
    subst hdot
    rw [eq_comm, Option.eq_none_iff_forall_ne_some]
    intro v hv
    obtain ⟨w, hw, -⟩ := exists_of_lastSet? hv
    exact h w hw
  · rfl

theorem kept?_set_of_ne {key : String} (hdot : key ≠ ".") (v : Json) :
    kept? (rs ++ [.set key v]) = Function.update (kept? rs) key (some v.sorted) := by
  funext other
  by_cases h : other = key
  · subst h
    rw [kept?, if_neg hdot, lastSet?_set, if_pos rfl, Function.update_self]
  · rw [kept?, lastSet?_set, if_neg h, Function.update_of_ne h, kept?]

theorem kept?_set_dot (v : Json) : kept? (rs ++ [.set "." v]) = kept? rs := by
  funext other
  unfold kept?
  split
  · rfl
  · next h => rw [lastSet?_set, if_neg h]

/-- A set under any key leaves the directory with the files of the values that are kept. -/
theorem hasFiles_set (h : Mirrors d folder (kept? rs)) {key : String} (hk : FileKey folder key)
    (v : Json) :
    (Folder.set d folder key v).1 =
        (if key = "." then .error (.file "." .isDirectory) else .ok ()) ∧
      ∃ a, Disk.Leads (Folder.set d folder key v).2 (Folder.directoryPart folder) a ∧
        HasFiles (Folder.set d folder key v).2 a (kept? (rs ++ [.set key v])) := by
  by_cases hdot : key = "."
  · subst hdot
    rw [if_pos rfl, kept?_set_dot]
    exact Folder.mirrors_set_dot h hk v
  · rw [if_neg hdot, kept?_set_of_ne hdot]
    exact Folder.mirrors_set h hk hdot v

theorem after_folder (hvacant : Vacant d folder) (hkeys : ∀ r ∈ rs, FileKey folder r.key) :
    ∃ e, after ⟨d, .folder folder⟩ rs = ⟨e, .folder folder⟩ ∧ Mirrors e folder (kept? rs) := by
  induction rs using List.reverseRecOn with
  | nil => exact ⟨d, rfl, .missing hvacant fun key => by simp [kept?, lastSet?]⟩
  | append_singleton rs r ih =>
    obtain ⟨e, hafter, he⟩ := ih fun r' hr' => hkeys r' (by simp [hr'])
    rw [after_concat, hafter]
    cases r with
    | get key =>
      refine ⟨e, rfl, ?_⟩
      have hsame : kept? (rs ++ [.get key]) = kept? rs := by
        funext other
        rw [kept?, lastSet?_get, kept?]
      rwa [hsame]
    | set key v =>
      obtain ⟨-, a, ha, hfiles⟩ := hasFiles_set he (hkeys (.set key v) (by simp)) v
      exact ⟨_, congrArg Prod.snd (set_folder e folder key v), .present ha hfiles⟩

theorem after_memory (d : Disk) (rs : List Request) :
    ∃ values, after ⟨d, .memory .empty .none⟩ rs = ⟨d, .memory values .none⟩ ∧
      ∀ key, values.get? key = lastSet? rs key := by
  induction rs using List.reverseRecOn with
  | nil => exact ⟨.empty, rfl, fun key => rfl⟩
  | append_singleton rs r ih =>
    obtain ⟨values, hafter, hvalues⟩ := ih
    rw [after_concat, hafter]
    cases r with
    | get key => exact ⟨values, rfl, fun other => by rw [hvalues, lastSet?_get]⟩
    | set key v =>
      refine ⟨values.set key v.sorted, rfl, fun other => ?_⟩
      rw [Table.get?_set, hvalues, lastSet?_set]

theorem answers_concat (s : Storage) (rs : List Request) (r : Request) :
    s.answers (rs ++ [r]) = s.answers rs ++ [((s.after rs).answer r).1] := by
  induction rs generalizing s with
  | nil => rfl
  | cons r' rs ih => exact congrArg _ (ih _)

theorem get?_after_memory (d : Disk) (rs : List Request) (key : String) :
    (after ⟨d, .memory .empty .none⟩ rs).get? key = .ok (lastSet? rs key) := by
  obtain ⟨values, hafter, hvalues⟩ := after_memory d rs
  rw [hafter, ← hvalues]
  rfl

theorem set_after_memory (d : Disk) (rs : List Request) (key : String) (v : Json) :
    ((after ⟨d, .memory .empty .none⟩ rs).set key v).1 = .ok () := by
  obtain ⟨values, hafter, -⟩ := after_memory d rs
  rw [hafter]
  rfl

theorem get?_after_folder (hvacant : Vacant d folder) (hkeys : ∀ r ∈ rs, FileKey folder r.key)
    (hreads : ∀ key v, .set key v ∈ rs → Json.parse? v.sorted.pretty = some v.sorted)
    {key : String} (hk : FileKey folder key) :
    (after ⟨d, .folder folder⟩ rs).get? key = .ok (kept? rs key) := by
  obtain ⟨e, hafter, he⟩ := after_folder hvacant hkeys
  rw [hafter, get?_folder]
  refine he.get? hk fun v hv => ?_
  unfold kept? at hv
  split at hv
  · cases hv
  · obtain ⟨w, hw, rfl⟩ := exists_of_lastSet? hv
    exact hreads key w hw

theorem set_after_folder (hvacant : Vacant d folder) (hkeys : ∀ r ∈ rs, FileKey folder r.key)
    {key : String} (hk : FileKey folder key) (v : Json) :
    ((after ⟨d, .folder folder⟩ rs).set key v).1 =
        (if key = "." then .error (.file "." .isDirectory) else .ok ()) ∧
      ∃ a, Disk.Leads ((after ⟨d, .folder folder⟩ rs).set key v).2.disk
          (Folder.directoryPart folder) a ∧
        HasFiles ((after ⟨d, .folder folder⟩ rs).set key v).2.disk a
          (kept? (rs ++ [.set key v])) := by
  obtain ⟨e, hafter, he⟩ := after_folder hvacant hkeys
  rw [hafter, set_folder]
  exact hasFiles_set he hk v

/-- Where nothing is set under the dot, all answers are those of a memory. -/
theorem answers_folder (hvacant : Vacant d folder) (hkeys : ∀ r ∈ rs, FileKey folder r.key)
    (hreads : ∀ key v, .set key v ∈ rs → Json.parse? v.sorted.pretty = some v.sorted)
    (hdot : ∀ v, .set "." v ∉ rs) :
    answers ⟨d, .folder folder⟩ rs = answers ⟨d, .memory .empty .none⟩ rs := by
  induction rs using List.reverseRecOn with
  | nil => rfl
  | append_singleton rs r ih =>
    have hkeys' : ∀ r ∈ rs, FileKey folder r.key := fun r' hr' => hkeys r' (by simp [hr'])
    have hreads' : ∀ key v, .set key v ∈ rs → Json.parse? v.sorted.pretty = some v.sorted :=
      fun key v hv => hreads key v (by simp [hv])
    have hdot' : ∀ v, .set "." v ∉ rs := fun v hv => hdot v (by simp [hv])
    rw [answers_concat, answers_concat, ih hkeys' hreads' hdot']
    congr 2
    cases r with
    | get key =>
      have hk : FileKey folder key := hkeys (.get key) (by simp)
      simp only [answer]
      rw [get?_after_folder hvacant hkeys' hreads' hk, get?_after_memory,
        kept?_eq_lastSet? hdot']
    | set key v =>
      have hk : FileKey folder key := hkeys (.set key v) (by simp)
      have hne : key ≠ "." := by
        rintro rfl
        exact hdot v (by simp)
      simp only [answer]
      rw [(set_after_folder hvacant hkeys' hk v).1, set_after_memory, if_neg hne]

/-- **A folder serves gets as a memory does**, whatever the requests before: each finds the value
last set under its key, or nothing. After each set the directory has one file for each key that was
set, and nothing else. The key of a single dot is apart: sets under it fail, and gets find nothing. -/
theorem folder_serves_as_memory {d : Disk} {folder : String} (hvacant : Vacant d folder)
    {rs : List Request} (hkeys : ∀ r ∈ rs, FileKey folder r.key)
    (hreads : ∀ key v, .set key v ∈ rs → Json.parse? v.sorted.pretty = some v.sorted) :
    ((∀ v, .set "." v ∉ rs) →
      answers ⟨d, .folder folder⟩ rs = answers ⟨d, .memory .empty .none⟩ rs) ∧
    (∀ key, FileKey folder key →
      (after ⟨d, .folder folder⟩ rs).get? key = .ok (kept? rs key) ∧
      (after ⟨d, .memory .empty .none⟩ rs).get? key = .ok (lastSet? rs key)) ∧
    ∀ key v, FileKey folder key →
      ((after ⟨d, .folder folder⟩ rs).set key v).1 =
        (if key = "." then .error (.file "." .isDirectory) else .ok ()) ∧
      ((after ⟨d, .memory .empty .none⟩ rs).set key v).1 = .ok () ∧
      ∃ a, Disk.Leads ((after ⟨d, .folder folder⟩ rs).set key v).2.disk
          (Folder.directoryPart folder) a ∧
        HasFiles ((after ⟨d, .folder folder⟩ rs).set key v).2.disk a
          (kept? (rs ++ [.set key v])) := by
  refine ⟨answers_folder hvacant hkeys hreads, fun key hk => ?_, fun key v hk => ?_⟩
  · exact ⟨get?_after_folder hvacant hkeys hreads hk, get?_after_memory d rs key⟩
  · obtain ⟨hset, hfiles⟩ := set_after_folder hvacant hkeys hk v
    exact ⟨hset, set_after_memory d rs key v, hfiles⟩

theorem vacant_empty : Vacant (.empty []) "/feedback" := by
  have hmake : (Disk.empty []).makeDirectories "/feedback" =
      (.ok (), (Disk.empty []).put ["feedback".toList] .directory) := by decide
  refine ⟨by rw [hmake], fun a ha name rest => ?_⟩
  rw [hmake] at ha ⊢
  have hthere : Disk.Leads ((Disk.empty []).put ["feedback".toList] .directory)
      (Folder.directoryPart "/feedback") ["feedback".toList] := by
    unfold Disk.Leads
    decide
  obtain rfl := ha.unique hthere
  have hbelow : ["feedback".toList] ++ name :: rest ≠ ["feedback".toList] :=
    fun e => by simpa using congrArg List.length e
  rw [Disk.node?_put _ (List.cons_ne_nil _ _), if_neg hbelow, Disk.node?_of_ne_nil _ (by simp)]
  rfl

theorem folder_serves_as_memory_likeKeys :
    let rs : List Request := [.set "a" (.int 1), .set "" (.int 2), .set ".json" (.int 3),
      .set "a.json.tmp" (.int 4), .set "." (.int 5)]
    (∀ r ∈ rs, FileKey "/feedback" r.key) ∧
      (after ⟨.empty [], .folder "/feedback"⟩ rs).get? "a" = .ok (some (.int 1)) ∧
      (after ⟨.empty [], .folder "/feedback"⟩ rs).get? "" = .ok (some (.int 2)) ∧
      (after ⟨.empty [], .folder "/feedback"⟩ rs).get? "." = .ok none := by
  intro rs
  have hkeys : ∀ r ∈ rs, FileKey "/feedback" r.key := by decide
  have hreads : ∀ key v, .set key v ∈ rs → Json.parse? v.sorted.pretty = some v.sorted := by
    intro key v hv
    have hlegible : Json.Legible 127 v := by
      simp only [rs, List.mem_cons, Request.set.injEq, List.not_mem_nil, or_false] at hv
      rcases hv with ⟨-, rfl⟩ | ⟨-, rfl⟩ | ⟨-, rfl⟩ | ⟨-, rfl⟩ | ⟨-, rfl⟩ <;>
        exact .int (by decide) (by decide)
    exact Json.parse?_pretty hlegible
  obtain ⟨-, hgets, -⟩ := folder_serves_as_memory vacant_empty hkeys hreads
  refine ⟨hkeys, ?_, ?_, ?_⟩
  · rw [(hgets "a" (by decide)).1]
    rfl
  · rw [(hgets "" (by decide)).1]
    rfl
  · rw [(hgets "." (by decide)).1]
    rfl

/-- A value that is set under a dot is lost to a folder, but not to a memory. -/
theorem dot_lost_to_folder :
    Vacant (.empty []) "/feedback" ∧ FileKey "/feedback" "." ∧
      (after ⟨.empty [], .folder "/feedback"⟩ [.set "." (.int 1)]).get? "." = .ok none ∧
      (after ⟨.empty [], .memory .empty .none⟩ [.set "." (.int 1)]).get? "." =
        .ok (some (.int 1)) :=
  ⟨vacant_empty, by decide, by rfl, by rfl⟩

end Storage

end CodeCoach
