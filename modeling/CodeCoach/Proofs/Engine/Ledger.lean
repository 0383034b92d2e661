import CodeCoach.Proofs.Engine.Run
import Mathlib.Data.List.Forall2
import Mathlib.Data.List.Nodup

/-!
# Feedback and interventions agree

The feedback since the last reset and the interventions of an engine are kept apart. They tell the
same story nevertheless: there is one feedback for each intervention that was acted on, and it is
that of the action.

* `Engine.Matches`, a feedback that is that of the action an intervention shows;
* `Engine.Ledger`, the invariant, and `ledger_run`, which carries it through a run;
* `Engine.Settled`, an intervention that was acted on, and what may become of it;
* `feedback_matches_interventions`, what holds in all runs.
-/

namespace CodeCoach.Engine

open FeedbackStore (Call)

/-- The feedback is that of the action that the intervention shows. -/
structure Matches (f : Feedback) (i : Intervention) : Prop where
  id : f.interventionId = i.id
  key : f.patternKey = i.context.patternKey
  dismissed : f.action = .dismissed ↔ i.dismissed.isSome
  accepted : f.action = .accepted ∨ f.action = .modified ↔ i.accepted.isSome

theorem matches_mark {i : Intervention} (h : i.isResolved = false) (action : Action)
    (note : Option String) (now : Instant) :
    Matches ((i.mark action).feedback action note now) (i.mark action) := by
  have hi : i.dismissed = none ∧ i.accepted = none := by
    simpa [Intervention.isResolved] using h
  refine ⟨rfl, rfl, ?_, ?_⟩ <;>
    cases action <;> simp [Intervention.feedback, Intervention.mark, hi.1, hi.2]

/-- The interventions of an engine and the feedback in a log. -/
structure Ledger (e : Engine) (log : List Feedback) : Prop where
  /-- The identifiers are taken from those in use, each at most once. -/
  issued : ∃ numbers : List Nat, numbers.Nodup ∧ (∀ k ∈ numbers, k < e.issued) ∧
    e.interventions.map Intervention.id = numbers.map e.ids
  exclusive : ∀ i ∈ e.interventions, i.dismissed = none ∨ i.accepted = none
  matched : ∃ resolved : List Intervention,
    resolved.Perm (e.interventions.filter Intervention.isResolved) ∧
      List.Forall₂ Matches log resolved

namespace Ledger

variable {e : Engine} {log : List Feedback}

theorem nodup_ids (h : Ledger e log) (hids : Function.Injective e.ids) :
    (e.interventions.map Intervention.id).Nodup := by
  obtain ⟨numbers, hnodup, -, hmap⟩ := h.issued
  rw [hmap]
  exact hnodup.map hids

theorem eq_of_id_eq (h : Ledger e log) (hids : Function.Injective e.ids) {i j : Intervention}
    (hi : i ∈ e.interventions) (hj : j ∈ e.interventions) (hij : j.id = i.id) : j = i :=
  List.inj_on_of_nodup_map (h.nodup_ids hids) hj hi hij

theorem exists_number (h : Ledger e log) {i : Intervention} (hi : i ∈ e.interventions) :
    ∃ k < e.issued, i.id = e.ids k := by
  obtain ⟨numbers, -, hlt, hmap⟩ := h.issued
  have hid : i.id ∈ numbers.map e.ids := hmap ▸ List.mem_map_of_mem hi
  obtain ⟨k, hk, he⟩ := List.mem_map.1 hid
  exact ⟨k, hlt k hk, he.symm⟩

/-- Numbers beyond those in use are new, and so are those that a delivery takes. -/
theorem issued_append (h : Ledger e log) {list : List Intervention}
    (hids : list.map Intervention.id = (List.range list.length).map fun k => e.ids (e.issued + k)) :
    ∃ numbers : List Nat, numbers.Nodup ∧ (∀ k ∈ numbers, k < e.issued + list.length) ∧
      (e.interventions ++ list).map Intervention.id = numbers.map e.ids := by
  obtain ⟨numbers, hnodup, hlt, hmap⟩ := h.issued
  refine ⟨numbers ++ (List.range list.length).map (e.issued + ·), ?_, ?_, ?_⟩
  · refine List.nodup_append'.2 ⟨hnodup, List.nodup_range.map fun a b hab => by simpa using hab, ?_⟩
    intro k hk hk'
    have := hlt k hk
    obtain ⟨l, -, rfl⟩ := List.mem_map.1 hk'
    omega
  · intro k hk
    rcases List.mem_append.1 hk with hk | hk
    · have := hlt k hk
      omega
    · obtain ⟨l, hl, rfl⟩ := List.mem_map.1 hk
      have := List.mem_range.1 hl
      omega
  · rw [List.map_append, hmap, hids, List.map_append, List.map_map]
    rfl

/-- A marked intervention is acted on, and the others are what they were. -/
theorem matched_mark (h : Ledger e log) {before rest : List Intervention} {i : Intervention}
    (he : e.interventions = before ++ i :: rest) (hi : i.isResolved = false) (action : Action)
    (note : Option String) (now : Instant) :
    ∃ resolved : List Intervention,
      resolved.Perm ((before ++ i.mark action :: rest).filter Intervention.isResolved) ∧
        List.Forall₂ Matches (log ++ [(i.mark action).feedback action note now]) resolved := by
  obtain ⟨resolved, hperm, hall⟩ := h.matched
  have hold : e.interventions.filter Intervention.isResolved =
      before.filter Intervention.isResolved ++ rest.filter Intervention.isResolved := by
    rw [he, List.filter_append, List.filter_cons_of_neg (by simp [hi])]
  -- The feedback comes last in the log, while the intervention stays in its place.
  refine ⟨resolved ++ [i.mark action], ?_, ?_⟩
  · rw [List.filter_append, List.filter_cons_of_pos (by simp)]
    refine ((hperm.append_right _).trans ?_).trans List.perm_middle.symm
    rw [hold]
    exact List.perm_append_singleton _ _
  · exact List.rel_append hall (.cons (matches_mark hi action note now) .nil)

theorem exclusive_mark (h : Ledger e log) {before rest : List Intervention} {i : Intervention}
    (he : e.interventions = before ++ i :: rest) (hi : i.isResolved = false) (action : Action) :
    ∀ j ∈ before ++ i.mark action :: rest, j.dismissed = none ∨ j.accepted = none := by
  intro j hj
  have hnone : i.dismissed = none ∧ i.accepted = none := by
    simpa [Intervention.isResolved] using hi
  have hold : ∀ j, j ∈ before ∨ j ∈ rest → j.dismissed = none ∨ j.accepted = none :=
    fun j hj => h.exclusive j (by rw [he]; simp only [List.mem_append, List.mem_cons]; tauto)
  rcases List.mem_append.1 hj with hj | hj
  · exact hold j (Or.inl hj)
  · rcases List.mem_cons.1 hj with rfl | hj
    · cases action <;> simp [Intervention.mark, hnone.1, hnone.2]
    · exact hold j (Or.inr hj)

end Ledger

theorem sinceReset_append_storage {cs calls : List Call} (h : ∀ c ∈ calls, ∃ s, c = .storage s) :
    Call.sinceReset (cs ++ calls) = Call.sinceReset cs := by
  have hnone : calls.filterMap Call.feedback? = [] := by
    refine List.filterMap_eq_nil_iff.2 fun c hc => ?_
    obtain ⟨s, rfl⟩ := h c hc
    rfl
  rw [Call.sinceReset_append, hnone, List.append_nil]
  intro c hc
  obtain ⟨s, rfl⟩ := h c hc
  rfl

theorem ledger_after {e : Engine} {cs : List Call} (h : Ledger e (Call.sinceReset cs)) (m : Move) :
    Ledger (e.after m) (Call.sinceReset (cs ++ e.calls m)) := by
  have hids := e.ids_after m
  cases e.turnover m with
  | kept hcalls hlist hissued =>
    rw [sinceReset_append_storage hcalls]
    exact ⟨by rw [hids, hlist, hissued]; exact h.issued, by rw [hlist]; exact h.exclusive,
      by rw [hlist]; exact h.matched⟩
  | delivered list hcalls hfresh hnew hlist hissued =>
    rw [hcalls, List.append_nil]
    refine ⟨?_, ?_, ?_⟩
    · rw [hids, hlist, hissued]
      exact h.issued_append hnew
    · rw [hlist]
      intro i hi
      rcases List.mem_append.1 hi with hi | hi
      · exact h.exclusive i hi
      · exact Or.inl (hfresh i hi).1
    · -- Nobody has acted on the new ones, so they need no feedback.
      have hnone : list.filter Intervention.isResolved = [] := by
        refine List.filter_eq_nil_iff.2 fun i hi => ?_
        simp [Intervention.isResolved, hfresh i hi]
      rw [hlist, List.filter_append, hnone, List.append_nil]
      exact h.matched
  | acted before i rest action note hcalls hold hi hlist hissued =>
    rw [hcalls, Call.sinceReset_concat]
    refine ⟨?_, ?_, ?_⟩
    · -- An action leaves identifiers alone.
      obtain ⟨numbers, hnodup, hlt, hmap⟩ := h.issued
      refine ⟨numbers, hnodup, hissued ▸ hlt, ?_⟩
      rw [hids, hlist, ← hmap, hold]
      simp
    · rw [hlist]
      exact h.exclusive_mark hold hi action
    · rw [hlist]
      exact h.matched_mark hold hi action note e.clock
  | reset hcalls hlist hissued =>
    rw [hcalls, Call.sinceReset_concat]
    refine ⟨⟨[], List.nodup_nil, by simp, ?_⟩, ?_, ⟨[], ?_, .nil⟩⟩ <;> simp [hlist]

theorem ledger_run (settings : Settings) (st : Storage) (ids : Nat → String) (clock : Instant)
    (moves : List Move) :
    let e := fresh settings (.fresh st) ids clock
    Ledger (e.run moves) (Call.sinceReset (e.callsOf moves)) := by
  intro e
  -- From the end, since the log begins anew after a reset, wherever the run began.
  induction moves using List.reverseRecOn with
  | nil => exact ⟨⟨[], List.nodup_nil, by simp, rfl⟩, by simp [e, fresh], ⟨[], .refl _, .nil⟩⟩
  | append_singleton moves m ih =>
    rw [run_concat, callsOf_concat]
    exact ledger_after ih m

/-! ### What was acted on stays as it is -/

/-- The intervention was acted on; it is among those of the engine, or none of them has its
identifier. -/
structure Settled (i : Intervention) (e : Engine) : Prop where
  resolved : i.isResolved = true
  issued : ∃ k < e.issued, i.id = e.ids k
  same : i ∈ e.interventions ∨ ∀ j ∈ e.interventions, j.id ≠ i.id

theorem Settled.after {i : Intervention} {e : Engine} (h : Settled i e)
    (hinj : Function.Injective e.ids) (m : Move) : Settled i (e.after m) := by
  obtain ⟨hi, ⟨k, hk, hik⟩, same⟩ := h
  have hids := e.ids_after m
  cases e.turnover m with
  | kept _ hlist hissued =>
    exact ⟨hi, ⟨k, by omega, by rw [hids, hik]⟩, by rw [hlist]; exact same⟩
  | delivered list _ _ hnew hlist hissued =>
    refine ⟨hi, ⟨k, by omega, by rw [hids, hik]⟩, ?_⟩
    rw [hlist]
    refine same.imp (fun hi => List.mem_append_left _ hi) fun hne j hj => ?_
    rcases List.mem_append.1 hj with hj | hj
    · exact hne j hj
    · -- A new identifier has a number that was not in use.
      have hid := List.mem_map_of_mem (f := Intervention.id) hj
      rw [hnew] at hid
      obtain ⟨l, -, hl⟩ := List.mem_map.1 hid
      rw [← hl, hik]
      intro heq
      have := hinj heq
      omega
  | acted before i' rest action note _ hold hi' hlist hissued =>
    refine ⟨hi, ⟨k, by omega, by rw [hids, hik]⟩, ?_⟩
    rw [hold] at same
    rw [hlist]
    -- The one that is acted on now was open before.
    have hne : i ≠ i' := by
      rintro rfl
      rw [hi] at hi'
      cases hi'
    rcases same with hmem | hother
    · left
      rcases List.mem_append.1 hmem with hmem | hmem
      · exact List.mem_append_left _ hmem
      · have hmem := (List.mem_cons.1 hmem).resolve_left hne
        exact List.mem_append_right _ (List.mem_cons_of_mem _ hmem)
    · right
      intro j hj
      rcases List.mem_append.1 hj with hj | hj
      · exact hother j (by simp [hj])
      · rcases List.mem_cons.1 hj with rfl | hj
        · rw [Intervention.id_mark]
          exact hother i' (by simp)
        · exact hother j (by simp [hj])
  | reset _ hlist hissued =>
    exact ⟨hi, ⟨k, by omega, by rw [hids, hik]⟩, Or.inr (by simp [hlist])⟩

theorem Settled.run {i : Intervention} {e : Engine} (h : Settled i e)
    (hinj : Function.Injective e.ids) (moves : List Move) : Settled i (e.run moves) := by
  induction moves generalizing e with
  | nil => exact h
  | cons m moves ih => exact ih (h.after hinj m) (by rwa [ids_after])

/-- Only a reset removes interventions. -/
theorem exists_id_after {e : Engine} {m : Move} (hm : m ≠ .reset) {i : Intervention}
    (hi : i ∈ e.interventions) : ∃ j ∈ (e.after m).interventions, j.id = i.id := by
  cases e.turnover m with
  | kept _ hlist _ => exact ⟨i, by rw [hlist]; exact hi, rfl⟩
  | delivered list _ _ _ hlist _ => exact ⟨i, by rw [hlist]; exact List.mem_append_left _ hi, rfl⟩
  | acted before i' rest action note _ hold _ hlist _ =>
    rw [hold] at hi
    rw [hlist]
    rcases List.mem_append.1 hi with hi | hi
    · exact ⟨i, by simp [hi], rfl⟩
    · rcases List.mem_cons.1 hi with rfl | hi
      · exact ⟨i.mark action, by simp, Intervention.id_mark i action⟩
      · exact ⟨i, by simp [hi], rfl⟩
  | reset hcalls _ _ => exact absurd (eq_reset_of_mem_calls (hcalls ▸ List.mem_singleton_self _)) hm

theorem exists_id_run {e : Engine} {moves : List Move} (hm : ∀ m ∈ moves, m ≠ .reset)
    {i : Intervention} (hi : i ∈ e.interventions) :
    ∃ j ∈ (e.run moves).interventions, j.id = i.id := by
  induction moves generalizing e i with
  | nil => exact ⟨i, hi, rfl⟩
  | cons m moves ih =>
    obtain ⟨j, hj, hji⟩ := exists_id_after (hm m (by simp)) hi
    obtain ⟨k, hk, hkj⟩ := ih (fun m' hm' => hm m' (by simp [hm'])) hj
    exact ⟨k, hk, hkj.trans hji⟩

/-! ### Actions -/

/-- An action on an identifier that is unknown or was acted on changes nothing. -/
theorem act_eq_of_resolved {e : Engine} {id : String}
    (h : ∀ i ∈ e.interventions, i.id = id → i.isResolved = true) (action : Action)
    (note : Option String) : e.act id action note = (false, e) := by
  have hnone : markFirst id action e.interventions = none := by
    refine markFirst_eq_none.2 fun i hi => ?_
    exact h i (List.mem_of_find?_eq_some hi) (by simpa using List.find?_some hi)
  rw [act, hnone]

theorem act_fst_of_unresolved {e : Engine} {log : List Feedback} (h : Ledger e log)
    (hids : Function.Injective e.ids) {i : Intervention} (hi : i ∈ e.interventions)
    (hopen : i.isResolved = false) (action : Action) (note : Option String) :
    (e.act i.id action note).1 = true := by
  rw [act]
  cases hm : markFirst i.id action e.interventions with
  | some marked => rfl
  | none =>
    obtain ⟨j, hj⟩ : ∃ j, e.interventions.find? (fun j => j.id == i.id) = some j := by
      rw [← Option.isSome_iff_exists, List.find?_isSome]
      exact ⟨i, hi, by simp⟩
    obtain rfl : j = i :=
      h.eq_of_id_eq hids hi (List.mem_of_find?_eq_some hj) (by simpa using List.find?_some hj)
    have := markFirst_eq_none.1 hm j hj
    rw [hopen] at this
    cases this

/-- **The feedback is that of the interventions that were acted on.** In every run that begins with
nothing learned, where no identifier is given twice:

* no intervention is both dismissed and accepted, and one that was acted on is never changed again,
  nor removed but by a reset;
* the feedback since the last reset, of which the history holds the newest thousand, and the
  interventions that were acted on correspond one to one;
* an action on an identifier that is unknown or was acted on changes nothing, and any other action is
  taken in;
* cycles leave what has been learned and the storage alone. -/
theorem feedback_matches_interventions (settings : Settings) (st : Storage) (ids : Nat → String)
    (hids : Function.Injective ids) (clock : Instant) (moves : List Move) :
    let first := fresh settings (.fresh st) ids clock
    let e := first.run moves
    let log := Call.sinceReset (first.callsOf moves)
    (∀ i ∈ e.interventions, i.dismissed = none ∨ i.accepted = none) ∧
    (∀ i ∈ e.interventions, i.isResolved = true → ∀ more,
      (∀ j ∈ (e.run more).interventions, j.id = i.id → j = i) ∧
      ((∀ m ∈ more, m ≠ .reset) → i ∈ (e.run more).interventions)) ∧
    (e.store = (FeedbackStore.fresh st).run (first.callsOf moves) ∧
      e.store.learning.history = log.drop (log.length - 1000)) ∧
    ((e.interventions.map Intervention.id).Nodup ∧
      ∃ resolved : List Intervention,
        resolved.Perm (e.interventions.filter Intervention.isResolved) ∧
          List.Forall₂ Matches log resolved) ∧
    (∀ id action note, (∀ i ∈ e.interventions, i.id = id → i.isResolved = true) →
      e.act id action note = (false, e)) ∧
    (∀ i ∈ e.interventions, i.isResolved = false → ∀ action note,
      (e.act i.id action note).1 = true) ∧
    (∀ d trigger now, (e.start d trigger now).2.store = e.store) ∧
    (∀ path a, (e.goOn path a).store = e.store) ∧
    (∀ path, (e.abort path).store = e.store) := by
  intro first e log
  have hledger : Ledger e log := ledger_run settings st ids clock moves
  have hinj : Function.Injective e.ids := by
    rw [show e.ids = ids from ids_run first moves]
    exact hids
  have hstore : e.store = (FeedbackStore.fresh st).run (first.callsOf moves) :=
    store_run first moves
  refine ⟨hledger.exclusive, ?_, ⟨hstore, ?_⟩, ⟨hledger.nodup_ids hinj, hledger.matched⟩,
    fun id action note h => act_eq_of_resolved h action note,
    fun i hi hopen action note => act_fst_of_unresolved hledger hinj hi hopen action note,
    e.store_start, e.store_goOn, fun path => rfl⟩
  · intro i hi hres more
    have hsettled : Settled i (e.run more) :=
      Settled.run ⟨hres, hledger.exists_number hi, Or.inl hi⟩ hinj more
    have hlater : Ledger (e.run more) (Call.sinceReset (first.callsOf (moves ++ more))) := by
      rw [show e.run more = first.run (moves ++ more) from (run_append _ _ _).symm]
      exact ledger_run settings st ids clock (moves ++ more)
    have hinj' : Function.Injective (e.run more).ids := by rwa [ids_run]
    refine ⟨fun j hj hji => ?_, fun hm => ?_⟩
    · -- Later on, too, no identifier is there twice.
      rcases hsettled.same with hmem | hnone
      · exact hlater.eq_of_id_eq hinj' hmem hj hji
      · exact absurd hji (hnone j hj)
    · -- Without a reset something has the identifier, and that is the intervention itself.
      refine hsettled.same.resolve_right fun hnone => ?_
      obtain ⟨j, hj, hji⟩ := exists_id_run hm hi
      exact hnone j hj hji
  · rw [hstore, FeedbackStore.learning_run]
    exact Learning.history_learnAll log

/-- A review finds a marker, and the finding is dismissed; the acceptance that follows comes too
late. -/
theorem dismissed_once :
    let ids := fun n => String.ofList (List.replicate n 'x')
    let first := fresh .default (.fresh ⟨.empty [], .memory .empty .none⟩) ids ⟨0, 0⟩
    let moves : List Move := [.start ⟨"// TODO: x", "text", "a.txt"⟩ .onDemand ⟨0, 0⟩,
      .goOn "a.txt" (.ok ""), .act "" .dismissed none, .act "" .accepted none]
    let e := first.run moves
    let log := Call.sinceReset (first.callsOf moves)
    Function.Injective ids ∧
    log = [⟨"", .dismissed, none, ⟨0, 0⟩, .codeSmell, "code-smell:// TODO: x"⟩] ∧
    e.interventions.map (fun i => (i.id, i.dismissed, i.accepted)) = [("", some true, none)] ∧
    (∃ resolved : List Intervention,
      resolved.Perm (e.interventions.filter Intervention.isResolved) ∧
        List.Forall₂ Matches log resolved) ∧
    e.act "" .accepted none = (false, e) := by
  have hids : Function.Injective fun n => String.ofList (List.replicate n 'x') := by
    intro m n h
    simpa using congrArg String.length h
  have h := feedback_matches_interventions .default ⟨.empty [], .memory .empty .none⟩ _ hids ⟨0, 0⟩
    [.start ⟨"// TODO: x", "text", "a.txt"⟩ .onDemand ⟨0, 0⟩, .goOn "a.txt" (.ok ""),
      .act "" .dismissed none, .act "" .accepted none]
  exact ⟨hids, by decide +kernel, by decide +kernel, h.2.2.2.1.2,
    h.2.2.2.2.1 "" .accepted none (by decide +kernel)⟩

end CodeCoach.Engine
