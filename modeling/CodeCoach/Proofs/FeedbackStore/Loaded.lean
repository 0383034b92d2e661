import CodeCoach.Proofs.FeedbackStore.Reload

/-!
# What is loaded from any storage

A store can be loaded from any storage, whatever that holds.

* `FeedbackStore.Lists`, for a key that holds a list of values, and `FeedbackStore.readOr_list`;
* `FeedbackStore.fits_stored`: what is loaded has the form in which it is written;
* `FeedbackStore.loads_what_it_can`: each part is loaded from its own key, in normal form.
-/

namespace CodeCoach

namespace FeedbackStore

open Json (Gives Reads)

section

variable {α : Type} {s : Storage} {key : String} {read : Json → Option α}

/-- The key holds a list, of whose items the reader makes these values. -/
def Lists (s : Storage) (key : String) (read : Json → Option α) (as : List α) : Prop :=
  ∃ items, s.get? key = .ok (some (.arr items)) ∧ Reads read items as

theorem readOr_congr {other : Storage} {dflt : α} (h : other.get? key = s.get? key) :
    readOr other key dflt read = readOr s key dflt read := by
  unfold readOr
  rw [h]

theorem readOr_gives {p : α → Prop} {dflt : α} (h : Gives read p) (hd : p dflt)
    (hs : ∀ v, s.get? key = .ok (some v) → v.Bounded) : p (readOr s key dflt read) := by
  unfold readOr
  split
  · next v hv =>
    cases hread : read v with
    | none => exact hd
    | some a => exact h v a (hs v hv) hread
  · exact hd

/-- The values of a list that can be read, and nothing where there is no such list. -/
theorem lists_or_eq_nil (s : Storage) (key : String) (read : Json → Option α) :
    Lists s key read (readOr s key [] (Json.list? read)) ∨
      (¬ ∃ as, Lists s key read as) ∧ readOr s key [] (Json.list? read) = [] := by
  have hnone (hlist : ∀ v as, s.get? key = .ok (some v) → Json.list? read v ≠ some as) :
      ¬ ∃ as, Lists s key read as := by
    rintro ⟨as, items, hget, hreads⟩
    exact hlist _ as hget (Json.list?_eq_some_iff.2 ⟨items, rfl, hreads⟩)
  unfold readOr
  split
  · next v hv =>
    cases hread : Json.list? read v with
    | none =>
      refine .inr ⟨hnone fun w as hw has => ?_, rfl⟩
      rw [hv] at hw
      cases hw
      rw [hread] at has
      cases has
    | some as =>
      obtain ⟨items, rfl, hreads⟩ := Json.list?_eq_some_iff.1 hread
      exact .inl ⟨items, hv, hreads⟩
  · next hv => exact .inr ⟨hnone fun w as hw _ => hv w hw, rfl⟩

theorem Lists.readOr_eq {as : List α} (h : Lists s key read as) :
    readOr s key [] (Json.list? read) = as := by
  obtain ⟨items, hget, hreads⟩ := h
  exact FeedbackStore.readOr_eq hget (Json.list?_eq_some_iff.2 ⟨items, rfl, hreads⟩)

end

/-! ### What is loaded -/

theorem history_stored (s : Storage) :
    (stored s).history =
      Learning.newest (readOr s historyKey [] (Json.list? Feedback.ofJson?)) := by
  rw [stored]

theorem patterns_stored (s : Storage) :
    (stored s).patterns =
      Sorted.ofList LearnedPattern.patternKey
        (readOr s patternsKey [] (Json.list? LearnedPattern.ofJson?)) := by
  rw [stored]

theorem rules_stored (s : Storage) :
    (stored s).rules = readOr s rulesKey .empty Rules.ofJson? := by
  rw [stored]

/-- What a storage holds is in the form in which it is written. -/
theorem fits_stored {s : Storage}
    (hs : ∀ key ∈ keys, ∀ v, s.get? key = .ok (some v) → v.Bounded) : (stored s).Fits := by
  have hhistory := readOr_gives (Json.gives_list Feedback.gives_ofJson?) (List.forall_mem_nil _)
    (hs historyKey (by simp [keys]))
  have hpatterns := readOr_gives (Json.gives_list LearnedPattern.gives_ofJson?)
    (List.forall_mem_nil _) (hs patternsKey (by simp [keys]))
  have hempty : Rules.empty.Fits := by simp [Rules.Fits, Rules.empty]
  have hrules := readOr_gives Rules.gives_ofJson? hempty (hs rulesKey (by simp [keys]))
  refine ⟨?_, fun f hf => ?_, ?_, fun p hp => ?_, hrules⟩
  · rw [history_stored, Learning.length_newest]
    exact Nat.min_le_right _ _
  · rw [history_stored] at hf
    exact hhistory f (Learning.mem_of_mem_newest hf)
  · rw [patterns_stored]
    exact Sorted.increasing_ofList _ _
  · rw [patterns_stored] at hp
    exact hpatterns p (Sorted.mem_of_mem_ofList _ hp)

/-- A memory without faults has the values that were written to it. -/
theorem get?_persist_memory (disk : Disk) (l : Learning) :
    ∀ f ∈ values l, (persist ⟨⟨disk, .memory .empty .none⟩, l⟩).2.storage.get? f.1 =
      .ok (some f.2.sorted) := by
  intro f hf
  simp only [values, List.mem_cons, List.not_mem_nil, or_false] at hf
  rcases hf with rfl | rfl | rfl <;> rfl

/-- Of several patterns with one key the last counts. -/
theorem pattern?_stored (s : Storage) (key : String) :
    (stored s).pattern? key =
      ((readOr s patternsKey [] (Json.list? LearnedPattern.ofJson?)).filter
        fun p => p.patternKey == key).getLast? := by
  rw [Learning.pattern?, patterns_stored, Sorted.find?_ofList, List.getLast?_filter]

/-- **A store is loaded from whatever a storage holds.** Under each of the three keys there may be
any JSON value, or none, or the key cannot be read:

* a store is loaded, and each of its parts depends on the value of one key alone;
* a part is empty unless its key has a value of which all can be read;
* of the history that is stored, the newest thousand records are loaded, in order;
* of the patterns with one key the last counts, and patterns are in the order of their keys;
* a storage that has the values which are written of what was loaded gives just that when it is
  loaded, as does a memory to which they were written. -/
theorem loads_what_it_can (s : Storage)
    (hs : ∀ key ∈ keys, ∀ v, s.get? key = .ok (some v) → v.Bounded) :
    let l := (load s).learning
    ((load s).storage = s ∧ ∀ other : Storage,
      (other.get? historyKey = s.get? historyKey →
        (load other).learning.history = l.history) ∧
      (other.get? patternsKey = s.get? patternsKey →
        (load other).learning.patterns = l.patterns) ∧
      (other.get? rulesKey = s.get? rulesKey →
        (load other).learning.rules = l.rules)) ∧
    (((¬ ∃ fs, Lists s historyKey Feedback.ofJson? fs) → l.history = []) ∧
      ∀ fs, Lists s historyKey Feedback.ofJson? fs →
        l.history <:+ fs ∧ l.history.length = min fs.length 1000) ∧
    (((¬ ∃ ps, Lists s patternsKey LearnedPattern.ofJson? ps) → l.patterns = []) ∧
      (∀ ps, Lists s patternsKey LearnedPattern.ofJson? ps → ∀ key,
        l.pattern? key = (ps.filter fun p => p.patternKey == key).getLast?) ∧
      Sorted.Increasing LearnedPattern.patternKey l.patterns) ∧
    (((¬ ∃ v rules, s.get? rulesKey = .ok (some v) ∧ Rules.ofJson? v = some rules) →
        l.rules = .empty) ∧
      ∀ v rules, s.get? rulesKey = .ok (some v) → Rules.ofJson? v = some rules →
        l.rules = rules) ∧
    (∀ again : Storage, (∀ f ∈ values l, again.get? f.1 = .ok (some f.2.sorted)) →
      (load again).learning = l) ∧
    ∀ disk, (load (persist ⟨⟨disk, .memory .empty .none⟩, l⟩).2.storage).learning = l := by
  intro l
  have hfits : l.Fits := fits_stored hs
  have hagain : ∀ again : Storage, (∀ f ∈ values l, again.get? f.1 = .ok (some f.2.sorted)) →
      (load again).learning = l := fun again => stored_eq_of_fits hfits
  have hhistory : l.history =
      Learning.newest (readOr s historyKey [] (Json.list? Feedback.ofJson?)) := history_stored s
  have hpatterns : l.patterns = Sorted.ofList LearnedPattern.patternKey
      (readOr s patternsKey [] (Json.list? LearnedPattern.ofJson?)) := patterns_stored s
  have hrules : l.rules = readOr s rulesKey .empty Rules.ofJson? := rules_stored s
  refine ⟨⟨rfl, fun other => ⟨fun h => ?_, fun h => ?_, fun h => ?_⟩⟩, ⟨fun h => ?_, fun fs h => ?_⟩,
    ⟨fun h => ?_, fun ps h key => ?_, hfits.patterns_increasing⟩, ⟨fun h => ?_, fun v rules hv h => ?_⟩,
    hagain, fun disk => hagain _ (get?_persist_memory disk l)⟩
  · rw [hhistory, load, history_stored, readOr_congr h]
  · rw [hpatterns, load, patterns_stored, readOr_congr h]
  · rw [hrules, load, rules_stored, readOr_congr h]
  · rcases lists_or_eq_nil s historyKey Feedback.ofJson? with hlist | ⟨-, hnil⟩
    · exact absurd ⟨_, hlist⟩ h
    · rw [hhistory, hnil]
      rfl
  · rw [hhistory, h.readOr_eq, Learning.length_newest]
    exact ⟨List.drop_suffix _ _, rfl⟩
  · rcases lists_or_eq_nil s patternsKey LearnedPattern.ofJson? with hlist | ⟨-, hnil⟩
    · exact absurd ⟨_, hlist⟩ h
    · rw [hpatterns, hnil]
      rfl
  · rw [← h.readOr_eq]
    exact pattern?_stored s key
  · rw [hrules, readOr]
    split
    · next v hv =>
      cases hread : Rules.ofJson? v with
      | none => rfl
      | some rules => exact absurd ⟨v, rules, hv, hread⟩ h
    · rfl
  · rw [hrules]
    exact readOr_eq hv h

/-- A stored pattern that was dismissed some times. -/
def dismissedPattern (key : String) (times : Int) : Json :=
  .obj [("pattern_key", .str key), ("issue_kind", .str "bug"), ("reaction", .str "rejected"),
    ("occurrence_count", .int times), ("last_updated", .str "2024-05-01T12:00:00Z")]

theorem bounded_dismissedPattern (key : String) {times : Int} (least : 0 ≤ times)
    (greatest : times ≤ Json.maxWord) : (dismissedPattern key times).Bounded := by
  refine .obj fun f hf => ?_
  simp only [List.mem_cons, List.not_mem_nil, or_false] at hf
  rcases hf with rfl | rfl | rfl | rfl | rfl
  · exact .str _
  · exact .str _
  · exact .str _
  · exact .int (by omega) greatest
  · exact .str _

/-- A stored dismissal. -/
def dismissal : Json :=
  .obj [("intervention_id", .str "7"), ("action", .str "dismissed"),
    ("timestamp", .str "2024-05-01T12:00:00Z"), ("issue_kind", .str "bug"),
    ("pattern_key", .str "bug:x")]

/-- A memory with a history of which one record is spoiled, with two patterns of one key, and with
rules that cannot be had. -/
def spoiledMemory : Storage where
  disk := .empty []
  medium := .memory
    ⟨[(historyKey, .arr [dismissal, .null]),
      (patternsKey, .arr [dismissedPattern "bug:x" 1, dismissedPattern "bug:a" 5,
        dismissedPattern "bug:x" 7])]⟩
    ⟨[rulesKey], []⟩

theorem loads_what_it_can_spoiled :
    let l := (load spoiledMemory).learning
    l.history = [] ∧
      l.patterns.map (fun p => (p.patternKey, p.occurrences)) = [("bug:a", 5), ("bug:x", 7)] ∧
      (l.pattern? "bug:x").map LearnedPattern.occurrences = some 7 ∧
      l.rules = .empty ∧
      ∀ disk, (load (persist ⟨⟨disk, .memory .empty .none⟩, l⟩).2.storage).learning = l := by
  have hbounded : ∀ key ∈ keys, ∀ v, spoiledMemory.get? key = .ok (some v) → v.Bounded := by
    intro key hkey v hv
    simp only [keys, List.mem_cons, List.not_mem_nil, or_false] at hkey
    rcases hkey with rfl | rfl | rfl
    · obtain rfl := Option.some.inj (Except.ok.inj hv)
      exact .arr (by simp [dismissal, Json.Bounded.null, Json.Bounded.obj, Json.Bounded.str])
    · obtain rfl := Option.some.inj (Except.ok.inj hv)
      refine .arr (List.forall_mem_cons.2 ⟨?_, List.forall_mem_cons.2 ⟨?_, ?_⟩⟩)
      · exact bounded_dismissedPattern _ (by decide) (by decide)
      · exact bounded_dismissedPattern _ (by decide) (by decide)
      · exact List.forall_mem_singleton.2 (bounded_dismissedPattern _ (by decide) (by decide))
    · cases hv
  obtain ⟨-, ⟨hhistory, -⟩, -, ⟨hrules, -⟩, -, hagain⟩ := loads_what_it_can spoiledMemory hbounded
  refine ⟨hhistory ?_, by decide +kernel, by decide +kernel, hrules ?_, hagain⟩
  · rintro ⟨fs, items, hitems, hreads⟩
    obtain rfl := Json.arr.inj (Option.some.inj (Except.ok.inj hitems))
    -- The second record cannot be read.
    obtain ⟨f, rest, -, hrest, rfl⟩ := List.forall₂_cons_left_iff.1 hreads
    obtain ⟨g, _, hg, -, rfl⟩ := List.forall₂_cons_left_iff.1 hrest
    cases hg
  · rintro ⟨v, rules, hv, -⟩
    cases hv

end FeedbackStore

end CodeCoach
