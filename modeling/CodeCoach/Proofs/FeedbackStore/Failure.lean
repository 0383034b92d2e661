import CodeCoach.Proofs.FeedbackStore.Reload

/-!
# Writes that fail

A store writes three values, each of which may fail to be written.

* `Storage.Contains`, a storage that has a value under a key, and `Storage.Keeps`, a storage that has
  under a key what another one had;
* `Storage.outcomes`, what becomes of each of several writes, with `setAll_eq_ok_iff` and
  `setAll_eq_error_iff`;
* `Storage.of_mem_outcomes`: what could be written is there, and of the rest nothing has changed;
* `FeedbackStore.writes_what_it_can`, what that means to a store.
-/

namespace CodeCoach

/-! ### Files of a folder -/

namespace Folder

open Disk

/-- A staging file is put in a directory, in the place of no directory. -/
theorem exists_staged {d e : Disk} {folder key : String} {content : Content} (hk : PlainKey key)
    (h : d.write (stagingPath folder key) content = .ok e) :
    ∃ a, d.node? (a ++ [tempName key]) ≠ some .directory ∧
      e = d.put (a ++ [tempName key]) (.file content) := by
  obtain ⟨b, htakes, rfl⟩ := write_eq_ok h
  obtain ⟨-, a, -, rfl, hnode⟩ := leads_of_takes (isDirectoryPart folder) hk.noSlash_tempName
    hk.isName_tempName (hk.toList_stagingPath folder) htakes
  exact ⟨a, hnode, rfl⟩

/-- A disk after a value was to be kept and could not be: some directories were made, and perhaps
the staging file was written. -/
theorem set_error {d : Disk} {folder key : String} {v : Json} (hk : PlainKey key)
    (h : (set d folder key v).1 ≠ .ok ()) :
    (set d folder key v).2 = (d.makeDirectories folder).2 ∨
      ∃ a, (d.makeDirectories folder).2.node? (a ++ [tempName key]) ≠ some .directory ∧
        (set d folder key v).2 =
          (d.makeDirectories folder).2.put (a ++ [tempName key]) (.file (.text v.sorted.pretty)) := by
  unfold set at h ⊢
  rcases hmake : d.makeDirectories folder with ⟨e | ⟨⟩, made⟩
  · exact Or.inl rfl
  simp only [hmake] at h ⊢
  cases hwrite : made.write (stagingPath folder key) (.text v.sorted.pretty) with
  | error e => exact Or.inl rfl
  | ok written =>
    obtain ⟨a, hnode, rfl⟩ := exists_staged hk hwrite
    simp only [hwrite] at h ⊢
    split at h
    · exact Or.inr ⟨a, hnode, by simp⟩
    · exact absurd rfl h

theorem keepsDirectories_set {d : Disk} {folder key : String} {v : Json} (hk : PlainKey key) :
    KeepsDirectories d (set d folder key v).2 := by
  by_cases h : (set d folder key v).1 = .ok ()
  · exact (set_ok hk h).2.1
  · have hmade := (makeDirectories_extends d folder).keepsDirectories
    rcases set_error hk h with heq | ⟨a, hnode, heq⟩
    · rw [heq]
      exact hmade
    · rw [heq]
      exact hmade.trans (keepsDirectories_put (by simp) hnode _)

/-- Keeping a value changes no files but those that have the name of the staging file, and those
that have the name of the file of the key if it succeeds. -/
theorem file_set {d : Disk} {folder key : String} {v : Json} (hk : PlainKey key) {name : List Char}
    (htemp : name ≠ tempName key)
    (hfile : (set d folder key v).1 = .ok () → name ≠ fileName key) (a : Address)
    (content : Content) :
    (set d folder key v).2.node? (a ++ [name]) = some (.file content) ↔
      d.node? (a ++ [name]) = some (.file content) := by
  rw [← file_makeDirectories d folder]
  by_cases h : (set d folder key v).1 = .ok ()
  · obtain ⟨-, -, b, -, hnode⟩ := set_ok hk h
    rw [hnode, if_neg (by simp [hfile h]), if_neg (by simp [htemp])]
  · rcases set_error hk h with heq | ⟨b, -, heq⟩
    · rw [heq]
    · rw [heq, node?_put _ (by simp), if_neg (by simp [htemp])]

end Folder

/-! ### One write -/

namespace Storage

open Folder (PlainKey)

/-- A storage has a value under a key. -/
def Contains (s : Storage) (key : String) (v : Json) : Prop :=
  match s.medium with
  | .memory values _ => values.get? key = some v.sorted
  | .folder path =>
    Disk.Passable (Folder.directoryPart path ++ Folder.fileName key) ∧
      ∃ a, Disk.Leads s.disk (Folder.directoryPart path) a ∧
        s.disk.node? (a ++ [Folder.fileName key]) = some (.file (.text v.sorted.pretty))

/-- A key has in the second storage what it had in the first. As to a folder, no file with the name
of the file of the key has changed, in whatever directory, and no directory is gone. -/
inductive Keeps (key : String) : Storage → Storage → Prop
  | memory {disk : Disk} {values values' : Table String Json} {faults : Faults}
      (hvalue : values'.get? key = values.get? key) :
      Keeps key ⟨disk, .memory values faults⟩ ⟨disk, .memory values' faults⟩
  | folder {disk disk' : Disk} {path : String} (hdirectories : Disk.KeepsDirectories disk disk')
      (hfile : ∀ a content, disk'.node? (a ++ [Folder.fileName key]) = some (.file content) ↔
        disk.node? (a ++ [Folder.fileName key]) = some (.file content)) :
      Keeps key ⟨disk, .folder path⟩ ⟨disk', .folder path⟩

namespace Keeps

variable {key : String} {s s' s'' : Storage}

theorem refl (key : String) (s : Storage) : Keeps key s s := by
  obtain ⟨disk, medium⟩ := s
  cases medium with
  | memory values faults => exact .memory rfl
  | folder path => exact .folder ⟨fun _ h => h, rfl⟩ fun _ _ => Iff.rfl

theorem trans (h : Keeps key s s') (h' : Keeps key s' s'') : Keeps key s s'' := by
  cases h with
  | memory hvalue =>
    cases h' with
    | memory hvalue' => exact .memory (hvalue'.trans hvalue)
  | folder hdirectories hfile =>
    cases h' with
    | folder hdirectories' hfile' =>
      exact .folder (hdirectories.trans hdirectories')
        fun a content => (hfile' a content).trans (hfile a content)

theorem contains (h : Keeps key s s') {v : Json} (hv : s.Contains key v) : s'.Contains key v := by
  cases h with
  | memory hvalue => exact hvalue.trans hv
  | folder hdirectories hfile =>
    obtain ⟨hp, a, ha, hnode⟩ := hv
    exact ⟨hp, a, hdirectories.leads ha, (hfile a _).2 hnode⟩

/-- A value that could be had can still be had. -/
theorem get? (h : Keeps key s s') (hk : PlainKey key) {w : Json}
    (hw : s.get? key = .ok (some w)) : s'.get? key = .ok (some w) := by
  cases h with
  | memory hvalue =>
    simp only [Storage.get?, hvalue] at hw ⊢
    exact hw
  | folder hdirectories hfile =>
    rw [get?_folder, Folder.get?_eq_iff hk] at hw ⊢
    obtain ⟨hp, a, text, ha, hnode, hparse⟩ := hw
    exact ⟨hp, a, text, hdirectories.leads ha, (hfile a _).2 hnode, hparse⟩

end Keeps

/-- What a storage contains can be had from it, if it can be written as text and read again. -/
theorem Contains.get? {s : Storage} {key : String} {v : Json} (h : s.Contains key v)
    (hk : PlainKey key) (hv : Json.Legible 127 v) (hs : s.Serves key) :
    s.get? key = .ok (some v.sorted) := by
  obtain ⟨disk, medium⟩ := s
  cases medium with
  | memory values faults =>
    have hvalue : values.get? key = some v.sorted := h
    simp [Storage.get?, hs values faults rfl, hvalue]
  | folder path =>
    obtain ⟨hp, a, ha, hnode⟩ := h
    rw [get?_folder, Folder.get?_eq_iff hk]
    exact ⟨hp, a, _, ha, hnode, Json.parse?_pretty hv⟩

theorem set_memory (disk : Disk) (values : Table String Json) (faults : Faults) (key : String)
    (v : Json) :
    set ⟨disk, .memory values faults⟩ key v =
      if Faults.hits faults.writes key then
        (.error (.unavailable ("set " ++ key)), ⟨disk, .memory values faults⟩)
      else (.ok (), ⟨disk, .memory (values.set key v.sorted) faults⟩) := by
  unfold Storage.set
  rfl

theorem contains_set {s : Storage} {key : String} {v : Json} (hk : PlainKey key)
    (h : (s.set key v).1 = .ok ()) : (s.set key v).2.Contains key v := by
  obtain ⟨disk, medium⟩ := s
  cases medium with
  | memory values faults =>
    rw [set_memory] at h ⊢
    split at h
    · cases h
    · next hwrites =>
      rw [if_neg hwrites]
      show (values.set key v.sorted).get? key = _
      rw [Table.get?_set, if_pos rfl]
  | folder path =>
    rw [set_folder] at h ⊢
    obtain ⟨hp, -, a, ha, hnode⟩ := Folder.set_ok hk h
    exact ⟨hp, a, ha, by rw [hnode, if_pos rfl]⟩

/-- A write that fails, or one under another key, changes nothing of a key. -/
theorem keeps_set {s : Storage} {key other : String} {v : Json} (hk : PlainKey key)
    (h : (s.set key v).1 = .ok () → other ≠ key) : Keeps other s (s.set key v).2 := by
  obtain ⟨disk, medium⟩ := s
  cases medium with
  | memory values faults =>
    rw [set_memory] at h ⊢
    split at h
    · next hwrites =>
      rw [if_pos hwrites]
      exact Keeps.refl other _
    · next hwrites =>
      rw [if_neg hwrites]
      refine .memory ?_
      rw [Table.get?_set, if_neg (h rfl)]
  | folder path =>
    rw [set_folder] at h ⊢
    refine .folder (Folder.keepsDirectories_set hk) fun a content => ?_
    refine Folder.file_set hk (Ne.symm (Folder.tempName_ne_fileName key other)) ?_ a content
    exact fun hok e => h hok (Folder.fileName_inj.1 e)

/-! ### Several writes -/

/-- What becomes of each of several writes. -/
def outcomes (s : Storage) : List (String × Json) → List (String × Except StorageError Unit)
  | [] => []
  | (key, v) :: rest => (key, (s.set key v).1) :: outcomes (s.set key v).2 rest

@[simp] theorem names_outcomes (s : Storage) (kvs : List (String × Json)) :
    (s.outcomes kvs).map Prod.fst = kvs.map Prod.fst := by
  induction kvs generalizing s with
  | nil => rfl
  | cons f rest ih => simp [outcomes, ih]

theorem outcomes_memory {s : Storage} {values : Table String Json} {faults : Faults}
    (h : s.medium = .memory values faults) (kvs : List (String × Json)) :
    s.outcomes kvs = (kvs.map Prod.fst).map fun key =>
      (key, if Faults.hits faults.writes key then .error (.unavailable ("set " ++ key))
        else .ok ()) := by
  induction kvs generalizing s values with
  | nil => rfl
  | cons f rest ih =>
    obtain ⟨disk, medium⟩ := s
    obtain rfl : medium = .memory values faults := h
    rw [outcomes, set_memory, List.map_cons, List.map_cons]
    split
    · exact congrArg _ (ih rfl)
    · exact congrArg _ (ih rfl)

theorem setAll_eq_ok_iff {s : Storage} {kvs : List (String × Json)} :
    (s.setAll kvs).1 = .ok () ↔ ∀ o ∈ s.outcomes kvs, o.2 = .ok () := by
  induction kvs generalizing s with
  | nil => simp [setAll, outcomes]
  | cons f rest ih =>
    rw [setAll_cons s f.1 f.2 rest, firstError_eq_ok, ih, outcomes, List.forall_mem_cons]

theorem firstError_eq_error {a b : Except StorageError Unit} {e : StorageError} :
    firstError a b = .error e ↔ a = .error e ∨ (a = .ok () ∧ b = .error e) := by
  cases a <;> simp [firstError]

/-- The failure that is reported is that of the first write that fails. -/
theorem setAll_eq_error_iff {s : Storage} {kvs : List (String × Json)} {e : StorageError} :
    (s.setAll kvs).1 = .error e ↔ ∃ before key rest,
      s.outcomes kvs = before ++ (key, .error e) :: rest ∧ ∀ o ∈ before, o.2 = .ok () := by
  induction kvs generalizing s with
  | nil => simp [setAll, outcomes]
  | cons f kvs ih =>
    obtain ⟨key, v⟩ := f
    rw [setAll_cons, firstError_eq_error, ih, outcomes]
    constructor
    · rintro (h | ⟨h, before, other, rest, heq, hbefore⟩)
      · exact ⟨[], key, _, by rw [h]; rfl, by simp⟩
      · exact ⟨(key, .ok ()) :: before, other, rest, by rw [h, heq]; rfl, by simpa using hbefore⟩
    · rintro ⟨before, other, rest, heq, hbefore⟩
      cases before with
      | nil =>
        obtain ⟨hfirst, -⟩ := List.cons.inj heq
        exact Or.inl (congrArg Prod.snd hfirst)
      | cons o before =>
        obtain ⟨rfl, hrest⟩ := List.cons.inj heq
        exact Or.inr ⟨hbefore _ List.mem_cons_self, before, other, rest, hrest,
          fun p hp => hbefore p (List.mem_cons_of_mem _ hp)⟩

theorem keeps_setAll {s : Storage} {key : String} {kvs : List (String × Json)}
    (hk : ∀ f ∈ kvs, PlainKey f.1) (hkey : key ∉ kvs.map Prod.fst) :
    Keeps key s (s.setAll kvs).2 := by
  induction kvs generalizing s with
  | nil => exact Keeps.refl key s
  | cons f rest ih =>
    obtain ⟨hne, hrest⟩ : key ≠ f.1 ∧ key ∉ rest.map Prod.fst := by simpa using hkey
    rw [setAll_cons]
    exact (keeps_set (hk f (by simp)) fun _ => hne).trans
      (ih (fun g hg => hk g (by simp [hg])) hrest)

/-- What could be written is there afterwards, and what could not be has left its key alone. -/
theorem of_mem_outcomes {s : Storage} {kvs : List (String × Json)}
    (hk : ∀ f ∈ kvs, PlainKey f.1) (hnames : (kvs.map Prod.fst).Nodup) :
    ∀ f ∈ kvs, ((f.1, .ok ()) ∈ s.outcomes kvs → (s.setAll kvs).2.Contains f.1 f.2) ∧
      ∀ e, (f.1, .error e) ∈ s.outcomes kvs → Keeps f.1 s (s.setAll kvs).2 := by
  induction kvs generalizing s with
  | nil => simp
  | cons g rest ih =>
    obtain ⟨key, v⟩ := g
    obtain ⟨hkey, hrest⟩ := List.nodup_cons.1 hnames
    have hplain := hk (key, v) (by simp)
    have hplains : ∀ f ∈ rest, PlainKey f.1 := fun f hf => hk f (by simp [hf])
    have hlater := keeps_setAll (s := (s.set key v).2) hplains hkey
    have hown : ∀ o, (key, o) ∈ s.outcomes ((key, v) :: rest) → o = (s.set key v).1 := by
      intro o ho
      rcases List.mem_cons.1 ho with ho | ho
      · exact congrArg Prod.snd ho
      · have := List.mem_map_of_mem (f := Prod.fst) ho
        rw [names_outcomes] at this
        exact absurd this hkey
    rw [setAll_cons]
    intro f hf
    rcases List.mem_cons.1 hf with rfl | hf
    · refine ⟨fun ho => hlater.contains (contains_set hplain (hown _ ho).symm), fun e ho => ?_⟩
      refine (keeps_set hplain fun hok => ?_).trans hlater
      rw [← hown _ ho] at hok
      cases hok
    · -- The first write is one under another key.
      have hne : f.1 ≠ key := fun e => hkey (List.mem_map.2 ⟨f, hf, e⟩)
      have hmem : ∀ o, (f.1, o) ∈ s.outcomes ((key, v) :: rest) →
          (f.1, o) ∈ (s.set key v).2.outcomes rest := fun o ho =>
        (List.mem_cons.1 ho).resolve_left fun e => hne (congrArg Prod.fst e)
      obtain ⟨hok, herror⟩ := ih (s := (s.set key v).2) hplains hrest f hf
      exact ⟨fun ho => hok (hmem _ ho), fun e ho =>
        (keeps_set hplain fun _ => hne).trans (herror e (hmem _ ho))⟩

end Storage

/-! ### A store -/

namespace FeedbackStore

open Storage (Keeps)

theorem plainKey_of_mem_values {l : Learning} : ∀ f ∈ values l, Folder.PlainKey f.1 := by
  intro f hf
  refine plainKey_of_mem_keys ?_
  rw [← names_values l]
  exact List.mem_map_of_mem hf

/-- What was learned does not depend on the storage. -/
theorem learning_call_of_storage (s : FeedbackStore) (other : Storage) (c : Call) :
    ((⟨other, s.learning⟩ : FeedbackStore).call c).2.learning = (s.call c).2.learning := by
  rw [learning_call, learning_call]

theorem persist_eq (s : FeedbackStore) :
    s.persist = ((s.storage.setAll (values s.learning)).1,
      ⟨(s.storage.setAll (values s.learning)).2, s.learning⟩) := by
  rw [persist]

/-- After everything could be written, the storage contains all that was learned. -/
theorem contains_persist {s : FeedbackStore} (h : s.persist.1 = .ok ()) :
    ∀ f ∈ values s.learning, s.persist.2.storage.Contains f.1 f.2 := by
  rw [persist_eq] at h ⊢
  intro f hf
  refine (Storage.of_mem_outcomes plainKey_of_mem_values (by rw [names_values]; decide) f hf).1 ?_
  -- The key was among those that were written, and no write failed.
  have hname := List.mem_map_of_mem (f := Prod.fst) hf
  rw [← s.storage.names_outcomes] at hname
  obtain ⟨⟨key, o⟩, ho, rfl⟩ := List.mem_map.1 hname
  obtain rfl : o = .ok () := Storage.setAll_eq_ok_iff.1 h _ ho
  exact ho

/-- **A store writes what it can.** Whatever a store has learned and whatever its storage is like,
when feedback comes in or everything is to be forgotten:

* what has been learned afterwards does not depend on the storage;
* the three values are written in order, and the call succeeds exactly when all of them could be
  written; otherwise it gives the failure of the first one that could not;
* a key that could be written has the new value, and any other has what it had before;
* where values are in memory, those keys cannot be written that are out of order, whichever they are;
* so after any run, a call that succeeds leaves a storage with all that has been learned, whatever
  could not be written before. -/
theorem writes_what_it_can (s : FeedbackStore) (c : Call) (hc : ∀ other, c ≠ .storage other) :
    let after := (s.call c).2
    let outcomes := s.storage.outcomes (values after.learning)
    (∀ other, ((⟨other, s.learning⟩ : FeedbackStore).call c).2.learning = after.learning) ∧
    (outcomes.map Prod.fst = ["feedback_history", "learning_patterns", "adaptation_rules"] ∧
      ((s.call c).1 = .ok () ↔ ∀ o ∈ outcomes, o.2 = .ok ()) ∧
      ∀ e, (s.call c).1 = .error e ↔ ∃ before key rest,
        outcomes = before ++ (key, .error e) :: rest ∧ ∀ o ∈ before, o.2 = .ok ()) ∧
    (∀ f ∈ values after.learning,
      ((f.1, .ok ()) ∈ outcomes → after.storage.Contains f.1 f.2) ∧
      ∀ e, (f.1, .error e) ∈ outcomes → Keeps f.1 s.storage after.storage ∧
        ∀ v, s.storage.get? f.1 = .ok (some v) → after.storage.get? f.1 = .ok (some v)) ∧
    (∀ kept faults, s.storage.medium = .memory kept faults → outcomes = keys.map fun key =>
      (key, if Faults.hits faults.writes key then .error (.unavailable ("set " ++ key))
        else .ok ())) ∧
    ∀ calls d, (∀ other, d ≠ .storage other) → ((s.run calls).call d).1 = .ok () →
      let later := ((s.run calls).call d).2
      ∀ f ∈ values later.learning, later.storage.Contains f.1 f.2 := by
  intro after outcomes
  have hcall : s.call c = ((s.storage.setAll (values after.learning)).1,
      ⟨(s.storage.setAll (values after.learning)).2, after.learning⟩) :=
    (call_eq_persist s hc).trans (persist_eq _)
  have hresult : (s.call c).1 = (s.storage.setAll (values after.learning)).1 :=
    congrArg Prod.fst hcall
  have hstorage : after.storage = (s.storage.setAll (values after.learning)).2 :=
    congrArg (fun r => r.2.storage) hcall
  have hnames : ((values after.learning).map Prod.fst).Nodup := by
    rw [names_values]
    decide
  refine ⟨fun other => learning_call_of_storage s other c, ⟨?_, ?_, ?_⟩, ?_, ?_, ?_⟩
  · exact (s.storage.names_outcomes _).trans (names_values _)
  · rw [hresult, Storage.setAll_eq_ok_iff]
  · intro e
    rw [hresult, Storage.setAll_eq_error_iff]
  · intro f hf
    obtain ⟨hok, herror⟩ :=
      Storage.of_mem_outcomes (s := s.storage) plainKey_of_mem_values hnames f hf
    rw [← hstorage] at hok herror
    exact ⟨hok, fun e he => ⟨herror e he,
      fun v hv => (herror e he).get? (plainKey_of_mem_values f hf) hv⟩⟩
  · intro kept faults hmemory
    exact Storage.outcomes_memory hmemory _
  · intro calls d hd hok
    rw [call_eq_persist _ hd] at hok ⊢
    exact contains_persist hok

/-- Of two dismissals, the first cannot be written as to its patterns. The second is written as a
whole, and the patterns count both. -/
theorem written_after_lost_pattern :
    let i : Intervention :=
      .create "x" .supportive ⟨"a.txt", 1, none, .bug, .warning, "", none, "x"⟩ ⟨0, 0⟩
    let dismissal := Call.record i .dismissed none ⟨0, 0⟩
    let s := fresh ⟨.empty [], .memory .empty ⟨[], ["learning_patterns"]⟩⟩
    let repaired : Call := .storage ((s.call dismissal).2.storage.withFaults .none)
    let later := ((s.run [dismissal, repaired]).call dismissal).2
    (∀ other, dismissal ≠ .storage other) ∧
    (s.call dismissal).1 = .error (.unavailable "set learning_patterns") ∧
    (s.call dismissal).2.storage.Contains "feedback_history"
      (.arr ((s.call dismissal).2.learning.history.map Feedback.toJson)) ∧
    Keeps "learning_patterns" s.storage (s.call dismissal).2.storage ∧
    later.learning.patterns.map LearnedPattern.occurrences = [2] ∧
    later.storage.Contains "learning_patterns"
      (.arr (later.learning.patterns.map LearnedPattern.toJson)) := by
  intro i dismissal s repaired later
  have hc : ∀ other, dismissal ≠ .storage other := by simp [dismissal]
  obtain ⟨-, ⟨-, -, hfirst⟩, hkeys, hmemory, hruns⟩ := writes_what_it_can s dismissal hc
  have houtcomes := hmemory .empty ⟨[], ["learning_patterns"]⟩ rfl
  refine ⟨hc, ?_, ?_, ?_, by decide +kernel, ?_⟩
  · exact (hfirst _).2 ⟨[(historyKey, .ok ())], patternsKey, [(rulesKey, .ok ())],
      houtcomes, by simp⟩
  · refine (hkeys (historyKey, _) List.mem_cons_self).1 ?_
    rw [houtcomes]
    decide
  · refine ((hkeys (patternsKey, _) (List.mem_cons_of_mem _ List.mem_cons_self)).2
      (.unavailable "set learning_patterns") ?_).1
    rw [houtcomes]
    decide
  · exact hruns [dismissal, repaired] dismissal hc (by decide +kernel) (patternsKey, _)
      (List.mem_cons_of_mem _ List.mem_cons_self)

end FeedbackStore

end CodeCoach
