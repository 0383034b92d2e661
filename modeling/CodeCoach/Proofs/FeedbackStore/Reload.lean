import CodeCoach.Proofs.FeedbackStore.Calls
import CodeCoach.Proofs.Storage
import CodeCoach.Proofs.Wire.Learning

/-!
# A store that was written is loaded again

* `Learning.Fits`, what has been learned as far as its values can be read back, and
  `FeedbackStore.stored_eq_of_fits`: what a storage holds, where it has those values;
* `Learning.Storable`, what has been learned as far as it can also be written as text;
  `Learning.storable_learnAll`: whatever a log teaches is;
* `FeedbackStore.load_run_of_ok`: after a call that could write everything, loading gives the same store,
  whatever was lost before.
-/

namespace CodeCoach

/-! ### What can be stored -/

/-- What has been learned is as it is when it comes from a storage. -/
structure Learning.Fits (l : Learning) : Prop where
  history_length : l.history.length ≤ historyLength
  history : ∀ f ∈ l.history, f.Fits
  patterns_increasing : Sorted.Increasing LearnedPattern.patternKey l.patterns
  patterns : ∀ p ∈ l.patterns, p.Fits
  rules : l.rules.Fits

/-- What has been learned, with the bounds of the form in which it is written. -/
structure Learning.Storable (l : Learning) : Prop where
  history_length : l.history.length ≤ historyLength
  history_time : ∀ f ∈ l.history, f.time.Proper
  patterns_increasing : Sorted.Increasing LearnedPattern.patternKey l.patterns
  patterns_time : ∀ p ∈ l.patterns, p.lastUpdated.Proper
  patterns_occurrences : ∀ p ∈ l.patterns, p.occurrences ≤ LearnedPattern.mostOccurrences
  sensitivity : ∀ kind x, l.rules.sensitivity.get kind = some x →
    ∃ h ∈ Sensitivity.grid, x = Sensitivity.hundredths h

namespace Learning

theorem mem_of_mem_newest {fs : List Feedback} {f : Feedback} (h : f ∈ newest fs) : f ∈ fs :=
  List.mem_of_mem_drop h

/-- The time and the count of a pattern are those of feedback on it. -/
theorem of_ofLog? {fs : List Feedback} {p : LearnedPattern}
    (h : LearnedPattern.ofLog? fs = some p) :
    p.occurrences ≤ LearnedPattern.mostOccurrences ∧ ∃ f ∈ fs, p.lastUpdated = f.time := by
  obtain ⟨f, hf, rfl⟩ := Option.map_eq_some_iff.1 h
  exact ⟨Nat.min_le_right _ _, f, List.mem_of_getLast? hf, rfl⟩

theorem Storable.fits {l : Learning} (h : l.Storable) : l.Fits where
  history_length := h.history_length
  history := h.history_time
  patterns_increasing := h.patterns_increasing
  patterns := fun p hp => ⟨h.patterns_time p hp, h.patterns_occurrences p hp⟩
  rules := by
    intro kind x hx
    obtain ⟨n, hn, rfl⟩ := h.sensitivity kind x hx
    exact Sensitivity.isFinite_hundredths n hn

theorem storable_learnAll {fs : List Feedback} (h : ∀ f ∈ fs, f.time.Proper) :
    (empty.learnAll fs).Storable where
  history_length := by
    rw [history_learnAll, length_newest]
    exact Nat.min_le_right _ _
  history_time := by
    intro f hf
    rw [history_learnAll] at hf
    exact h f (mem_of_mem_newest hf)
  patterns_increasing := increasing_patterns_learnAll fs
  patterns_time := by
    intro p hp
    obtain ⟨-, f, hf, ht⟩ := of_ofLog? (mem_patterns_learnAll.1 hp)
    rw [ht]
    exact h f (mem_about.1 hf).1
  patterns_occurrences := fun p hp => (of_ofLog? (mem_patterns_learnAll.1 hp)).1
  sensitivity := by
    intro kind x hx
    rw [sensitivity_learnAll] at hx
    obtain ⟨n, hn, rfl⟩ := Option.map_eq_some_iff.1 hx
    exact ⟨n, Sensitivity.mem_grid_of_ofActions? hn, rfl⟩

end Learning

/-! ### Writing and loading -/

namespace FeedbackStore

/-- The keys under which a store keeps what it has learned. -/
def keys : List String := [historyKey, patternsKey, rulesKey]

theorem plainKey_of_mem_keys {key : String} (h : key ∈ keys) : Folder.PlainKey key := by
  simp only [keys, List.mem_cons, List.not_mem_nil, or_false] at h
  rcases h with rfl | rfl | rfl <;> exact ⟨by decide, by decide, by decide, by decide⟩

theorem names_values (l : Learning) : (values l).map Prod.fst = keys := rfl

theorem legible_values {l : Learning} (h : l.Storable) :
    ∀ f ∈ values l, Json.Legible 127 f.2 := by
  intro f hf
  simp only [values, List.mem_cons, List.not_mem_nil, or_false] at hf
  rcases hf with rfl | rfl | rfl
  · exact Json.legible_list fun g _ => g.legible_toJson 125
  · exact Json.legible_list fun p hp =>
      LearnedPattern.legible_toJson 125 (h.patterns_occurrences p hp)
  · refine Rules.legible_toJson 125 fun kind x hx => ?_
    obtain ⟨n, hn, rfl⟩ := h.sensitivity kind x hx
    exact Sensitivity.readsBack_hundredths hn

theorem readOr_eq {α : Type} {s : Storage} {key : String} {v : Json} {dflt a : α}
    {read : Json → Option α} (hs : s.get? key = .ok (some v)) (hv : read v = some a) :
    readOr s key dflt read = a := by
  simp [readOr, hs, hv]

/-- A storage that has the values of what has been learned gives it back. -/
theorem stored_eq_of_fits {s : Storage} {l : Learning} (hl : l.Fits)
    (h : ∀ f ∈ values l, s.get? f.1 = .ok (some f.2.sorted)) : stored s = l := by
  have hhistory := h (historyKey, .arr (l.history.map Feedback.toJson)) (by simp [values])
  have hpatterns := h (patternsKey, .arr (l.patterns.map LearnedPattern.toJson)) (by simp [values])
  have hrules := h (rulesKey, l.rules.toJson) (by simp [values])
  unfold stored
  rw [readOr_eq hhistory (Json.list?_map fun f hf => Feedback.ofJson?_toJson (hl.history f hf)),
    readOr_eq hpatterns (Json.list?_map fun p hp =>
      LearnedPattern.ofJson?_toJson (hl.patterns p hp).1 (hl.patterns p hp).2),
    readOr_eq hrules (Rules.ofJson?_toJson hl.rules), Learning.newest_eq_self hl.history_length,
    Sorted.ofList_of_increasing _ hl.patterns_increasing]

theorem stored_eq {s : Storage} {l : Learning} (hl : l.Storable)
    (h : ∀ f ∈ values l, s.get? f.1 = .ok (some f.2.sorted)) : stored s = l :=
  stored_eq_of_fits hl.fits h

/-- After everything could be written, loading gives the store that wrote it. -/
theorem load_persist {s : FeedbackStore} (hl : s.learning.Storable)
    (hs : ∀ key ∈ keys, s.storage.Serves key) (h : s.persist.1 = .ok ()) :
    load s.persist.2.storage = s.persist.2 := by
  have hkeys : ∀ f ∈ values s.learning, f.1 ∈ keys := by
    intro f hf
    rw [← names_values s.learning]
    exact List.mem_map_of_mem hf
  have hkept := Storage.get?_setAll (s := s.storage)
    (fun f hf => plainKey_of_mem_keys (hkeys f hf))
    (by rw [names_values]; decide) (legible_values hl) (fun f hf => hs f.1 (hkeys f hf)) h
  have hstored : stored s.persist.2.storage = s.learning := stored_eq hl hkept
  rw [load, hstored]
  rfl

/-- What is asked of a store changes what has been learned and then writes all of it. -/
theorem call_eq_persist (s : FeedbackStore) {c : Call} (hc : ∀ other, c ≠ .storage other) :
    s.call c = persist { s with learning := (s.call c).2.learning } := by
  cases c with
  | record i action note now => rfl
  | reset => rfl
  | storage other => exact absurd rfl (hc other)

theorem serves_persist {s : FeedbackStore} {key : String} :
    s.persist.2.storage.Serves key ↔ s.storage.Serves key := by
  unfold persist
  exact Storage.serves_setAll

/-- The answers to calls in order. -/
def answers (s : FeedbackStore) : List Call → List (Except StorageError Unit)
  | [] => []
  | c :: calls => (s.call c).1 :: answers (s.call c).2 calls

/-- Times are instants of the range of dates. -/
theorem proper_of_mem_sinceReset {calls : List Call}
    (h : ∀ i action note now, .record i action note now ∈ calls → now.Proper) :
    ∀ f ∈ Call.sinceReset calls, f.time.Proper := by
  intro f hf
  obtain ⟨i, action, note, now, hmem, rfl⟩ := Call.exists_record_of_mem_sinceReset hf
  exact h i action note now hmem

/-- After a call that could write everything, a store that is loaded from the same storage has
learned the same, and answers all further calls alike, whatever was lost before. -/
theorem load_run_of_ok (st : Storage) (calls : List Call) (c : Call) (hc : ∀ other, c ≠ .storage other)
    (htimes : ∀ i action note now, .record i action note now ∈ calls ++ [c] → now.Proper)
    (hserves : ∀ key ∈ keys, ((fresh st).run (calls ++ [c])).storage.Serves key)
    (hok : (((fresh st).run calls).call c).1 = .ok ()) :
    let s := (fresh st).run (calls ++ [c])
    load s.storage = s ∧
      (load s.storage).learning.stats = s.learning.stats ∧
      (∀ i, (load s.storage).learning.shows i = s.learning.shows i) ∧
      ∀ more, (load s.storage).answers more = s.answers more ∧
        (load s.storage).run more = s.run more := by
  intro s
  have hs : s = (((fresh st).run calls).call c).2 := run_concat (fresh st) calls c
  have hcall := call_eq_persist ((fresh st).run calls) hc
  have hlearned : s.learning.Storable := by
    rw [learning_run]
    exact Learning.storable_learnAll (proper_of_mem_sinceReset htimes)
  -- The storage is the one that the last call has written, with all that was learned before it.
  have hload : load s.storage = s := by
    rw [← hs] at hcall
    rw [hcall] at hok hs
    rw [hs]
    refine load_persist hlearned (fun key hkey => ?_) hok
    have hserves := hserves key hkey
    rw [show (fresh st).run (calls ++ [c]) = s from rfl, hs, serves_persist] at hserves
    exact hserves
  rw [hload]
  exact ⟨rfl, rfl, fun i => rfl, fun more => ⟨rfl, rfl⟩⟩

/-- A dismissal cannot be written, since a file is in the way of the folder. Once the file is gone,
the next dismissal writes both. -/
theorem loaded_after_lost_write :
    let i : Intervention :=
      .create "x" .supportive ⟨"a.txt", 1, none, .bug, .warning, "", none, "x"⟩ ⟨0, 0⟩
    let first := fresh ⟨(Disk.empty []).put [['d']] (.file (.text "")), .folder "/d"⟩
    let calls : List Call := [.record i .dismissed none ⟨0, 0⟩, .storage ⟨.empty [], .folder "/d"⟩]
    let s := first.run (calls ++ [.record i .dismissed (some "no") ⟨1, 0⟩])
    (first.call (.record i .dismissed none ⟨0, 0⟩)).1 ≠ .ok () ∧
      s.learning.history = [⟨"x", .dismissed, none, ⟨0, 0⟩, .bug, "bug:x"⟩,
        ⟨"x", .dismissed, some "no", ⟨1, 0⟩, .bug, "bug:x"⟩] ∧
      load s.storage = s := by
  intro i first calls s
  refine ⟨by decide +kernel, by decide +kernel, ?_⟩
  refine (load_run_of_ok first.storage calls (.record i .dismissed (some "no") ⟨1, 0⟩)
    (fun other h => by cases h) ?_ ?_ (by decide +kernel)).1
  · intro j action note now h
    simp [calls] at h
    rcases h with ⟨-, -, -, rfl⟩ | ⟨-, -, -, rfl⟩
    · exact ⟨by decide, by decide⟩
    · exact ⟨by decide, by decide⟩
  · intro key _
    rw [run_concat, call_eq_persist _ (fun other h => by cases h), serves_persist]
    rintro values faults ⟨⟩

end FeedbackStore

end CodeCoach
