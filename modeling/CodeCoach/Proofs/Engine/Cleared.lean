import CodeCoach.Proofs.Debounce
import CodeCoach.Proofs.Engine.Broadcast

/-!
# What a reset leaves in flight

A reset forgets the documents that wait, but it does not stop cycles. So what is delivered later comes
of cycles that were in flight, or that began since.

* `Desk.Holds`, a flight that is there all through the parts of a run;
* `Desk.Stems`, where the flight of a path comes from, and `stems_run`;
* `Desk.waiting_run`: what waits did so before or was scheduled since;
* `reset_spares_only_flights`, what holds of a reset that other parts come between.
-/

namespace CodeCoach.Engine

/-- Whether a move asks for a cycle, now or when the document is left alone. -/
def Move.asks : Move → Bool
  | .start .. => true
  | .schedule .. => true
  | _ => false

/-- What waits after a move waited before it, or the move has scheduled it. -/
theorem exists_schedule_of_waiting {e : Engine} {m : Move} {w : Waiting Awaiting}
    (h : w ∈ (e.after m).timers.waiting) :
    w ∈ e.timers.waiting ∨ m = .schedule w.action.document w.action.trigger := by
  cases m with
  | start d trigger now =>
    obtain ⟨cooldown, flights, heq⟩ := e.start_eq d trigger now
    rw [after, heq] at h
    exact Or.inl h
  | goOn path a =>
    obtain ⟨flights, interventions, issued, events, heq⟩ := e.goOn_eq path a
    rw [after, heq] at h
    exact Or.inl h
  | act id action note =>
    left
    simp only [after, act] at h
    split at h <;> exact h
  | schedule d trigger =>
    simp only [after, schedule] at h
    split at h
    · rcases List.mem_append.1 h with h | h
      · exact Or.inl (List.mem_of_mem_filter h)
      · rw [List.mem_singleton.1 h]
        exact Or.inr rfl
    · exact Or.inl h
  | reset => simp [after, reset, publish, Debouncer.cancelAll] at h
  | unschedule path => exact Or.inl (List.mem_of_mem_filter h)
  | elapse ms => exact Or.inl (List.mem_of_mem_filter h)
  | _ => exact Or.inl h

namespace Desk

/-! ### Flights -/

/-- Parts other than moves leave the flights alone. What waits stays as it is, or none of it. -/
theorem exists_after_eq {k : Desk} {p : Part} (h : ∀ m, p ≠ .move m) :
    ∃ timers interventions store events,
      (timers = k.engine.timers ∨ timers = k.engine.timers.cancelAll) ∧
      (k.after p).engine =
        { k.engine with
          timers := timers
          interventions := interventions
          store := store
          events := events } := by
  cases p with
  | move m => exact absurd rfl (h m)
  | act id action note =>
    rw [after]
    split <;> exact ⟨_, _, _, _, Or.inl rfl, rfl⟩
  | reset => exact ⟨_, _, _, _, Or.inr rfl, rfl⟩
  | goOn n =>
    rw [after]
    split
    · exact ⟨_, _, _, _, Or.inl rfl, rfl⟩
    · next errand _ => cases errand <;> exact ⟨_, _, _, _, Or.inl rfl, rfl⟩
  | drop n => exact ⟨_, _, _, _, Or.inl rfl, rfl⟩

/-- The part lets a cycle of the path through. -/
def Begins (k : Desk) (p : Part) (path : String) : Prop :=
  ∃ m, p = .move m ∧ k.engine.Begins m path

/-- Where there was no flight, one comes about by a request that is let through. -/
theorem begins_of_flight? {k : Desk} {p : Part} {path : String}
    (hfree : k.engine.flight? path = none) (h : ((k.after p).engine.flight? path).isSome) :
    k.Begins p path := by
  by_cases hmove : ∃ m, p = .move m
  · obtain ⟨m, rfl⟩ := hmove
    refine ⟨m, rfl, ?_⟩
    by_contra hbegins
    have hends : ¬ k.engine.Ends m path := fun hends => by
      rw [after, flight?_of_ends hends] at h
      cases h
    rw [after, flight?_after hbegins hends, hfree] at h
    cases h
  · obtain ⟨timers, interventions, store, events, -, heq⟩ :=
      exists_after_eq (k := k) fun m hm => hmove ⟨m, hm⟩
    rw [heq] at h
    rw [flight?] at h hfree
    rw [hfree] at h
    cases h

/-- The engine holds a flight of the path all through the parts. -/
def Holds (k : Desk) (path : String) : List Part → Prop
  | [] => (k.engine.flight? path).isSome
  | p :: parts => (k.engine.flight? path).isSome ∧ (k.after p).Holds path parts

theorem holds_concat {k : Desk} {path : String} {parts : List Part} {p : Part} :
    k.Holds path (parts ++ [p]) ↔
      k.Holds path parts ∧ ((k.run (parts ++ [p])).engine.flight? path).isSome := by
  induction parts generalizing k with
  | nil => rfl
  | cons q parts ih => rw [List.cons_append, Holds, ih, run_cons, Holds, and_assoc]

theorem Holds.isSome {k : Desk} {path : String} {parts : List Part} (h : k.Holds path parts) :
    (k.engine.flight? path).isSome := by
  cases parts with
  | nil => exact h
  | cons p parts => exact h.1

/-- The cycle of a path was in flight before the parts and is so ever since, or it began with one of
them. -/
def Stems (k : Desk) (path : String) (parts : List Part) : Prop :=
  k.Holds path parts ∨ ∃ before p later, parts = before ++ p :: later ∧
    (k.run before).Begins p path ∧ (k.run (before ++ [p])).Holds path later

theorem stems_run {k : Desk} {path : String} {parts : List Part}
    (h : ((k.run parts).engine.flight? path).isSome) : k.Stems path parts := by
  induction parts using List.reverseRecOn with
  | nil => exact Or.inl h
  | append_singleton parts p ih =>
    cases hf : (k.run parts).engine.flight? path with
    | none =>
      rw [run_concat] at h
      refine Or.inr ⟨parts, p, [], rfl, begins_of_flight? hf h, ?_⟩
      rw [run_concat]
      exact h
    | some f =>
      rcases ih (by simp [hf]) with hholds | ⟨before, q, later, rfl, hbegins, hholds⟩
      · exact Or.inl (holds_concat.2 ⟨hholds, h⟩)
      · refine Or.inr ⟨before, q, later ++ [p], by simp, hbegins, holds_concat.2 ⟨hholds, ?_⟩⟩
        rw [← run_append]
        simpa using h

/-! ### Documents that wait -/

/-- What waits after a part waited before it, or the part has scheduled it. -/
theorem waiting_after {k : Desk} {p : Part} {w : Waiting Awaiting}
    (h : w ∈ (k.after p).engine.timers.waiting) :
    w ∈ k.engine.timers.waiting ∨
      p = .move (.schedule w.action.document w.action.trigger) := by
  by_cases hmove : ∃ m, p = .move m
  · obtain ⟨m, rfl⟩ := hmove
    exact (exists_schedule_of_waiting h).imp_right fun hm => by rw [hm]
  · obtain ⟨timers, interventions, store, events, htimers, heq⟩ :=
      exists_after_eq (k := k) fun m hm => hmove ⟨m, hm⟩
    rw [heq] at h
    rcases htimers with rfl | rfl
    · exact Or.inl h
    · simp [Debouncer.cancelAll] at h

/-- What waits after parts waited before them, or one of them has scheduled it. -/
theorem waiting_run {k : Desk} {parts : List Part} {w : Waiting Awaiting}
    (h : w ∈ (k.run parts).engine.timers.waiting) :
    w ∈ k.engine.timers.waiting ∨
      .move (.schedule w.action.document w.action.trigger) ∈ parts := by
  induction parts using List.reverseRecOn with
  | nil => exact Or.inl h
  | append_singleton parts p ih =>
    rw [run_concat] at h
    rcases waiting_after h with h | rfl
    · exact (ih h).imp_right fun h => List.mem_append_left _ h
    · exact Or.inr (by simp)

/-! ### Interventions -/

/-- What is told of as new was delivered by the cycle of a path. -/
theorem exists_flight_of_created {k : Desk} {p : Part} {i : Intervention}
    (h : .created i ∈ k.told p) :
    ∃ path a, p = .move (.goOn path a) ∧ (k.engine.flight? path).isSome := by
  have hcreated : i ∈ (k.delivered? p).getD [] := by
    rw [← (k.effect p).created, List.mem_filterMap]
    exact ⟨_, h, rfl⟩
  cases p with
  | move m =>
    cases m with
    | goOn path a =>
      cases hsettle : (k.engine.settle path).1 with
      | none => simp [delivered?, hsettle] at hcreated
      | some list =>
        obtain ⟨f, hf, -, -⟩ := settle_fst_eq_some_iff.1 hsettle
        exact ⟨path, a, rfl, by simp [hf]⟩
    | _ => simp [delivered?] at hcreated
  | _ => simp [delivered?] at hcreated

/-- An intervention that was not there before is told of as new. -/
theorem known_or_created {k : Desk} {p : Part} {i : Intervention}
    (h : i ∈ (k.after p).engine.interventions) :
    (∃ j ∈ k.engine.interventions, j.id = i.id) ∨ .created i ∈ k.told p := by
  cases (k.effect p).change with
  | delivered _ _ _ _ hlist =>
    rw [hlist, List.mem_append] at h
    refine h.imp (fun h => ⟨i, h, rfl⟩) fun h => ?_
    obtain ⟨event, hevent, hi⟩ := List.mem_filterMap.1 h
    rwa [Event.eq_created_of_created? hi] at hevent
  | acted before j rest action _ _ _ hold _ hlist =>
    left
    rw [hlist] at h
    rcases List.mem_append.1 h with h | h
    · exact ⟨i, by simp [hold, h], rfl⟩
    · rcases List.mem_cons.1 h with rfl | h
      · exact ⟨j, by simp [hold], (j.id_mark action).symm⟩
      · exact ⟨i, by simp [hold, h], rfl⟩
  | cleared _ _ _ hlist => simp [hlist] at h

/-- While nothing is told of as new, there are no interventions where there were none. -/
theorem interventions_eq_nil_run {k : Desk} {parts : List Part} (h : k.engine.interventions = [])
    (hquiet : ∀ before p later, parts = before ++ p :: later →
      ∀ i, .created i ∉ (k.run before).told p) :
    (k.run parts).engine.interventions = [] := by
  induction parts using List.reverseRecOn with
  | nil => exact h
  | append_singleton parts p ih =>
    have hbefore := ih fun before q later heq => hquiet before q (later ++ [p]) (by simp [heq])
    rw [run_concat]
    refine List.eq_nil_iff_forall_not_mem.2 fun i hi => ?_
    rcases known_or_created hi with ⟨j, hj, -⟩ | hcreated
    · simp [hbefore] at hj
    · exact hquiet parts p [] rfl i hcreated

/-- After a part that removes the interventions, there are none. -/
theorem interventions_of_clears {k : Desk} {p : Part} (h : k.clears p = true) :
    (k.after p).engine.interventions = [] := by
  cases (k.effect p).change with
  | delivered hclears _ _ _ _ => simp [h] at hclears
  | acted _ _ _ _ hclears _ _ _ _ _ => simp [h] at hclears
  | cleared _ _ _ hlist => exact hlist

/-! ### Resets -/

/-- Where no cycle was in flight and none was asked for, no path has a flight. -/
theorem flight?_run_of_not_asked {k : Desk} (h : k.engine.flights = []) {parts : List Part}
    (hasks : ∀ m, .move m ∈ parts → m.asks = false) (path : String) :
    (k.run parts).engine.flight? path = none := by
  by_contra hflight
  rcases stems_run (Option.ne_none_iff_isSome.1 hflight) with
    hholds | ⟨before, p, later, rfl, ⟨m, rfl, d, trigger, now, rfl, -⟩, -⟩
  · have := hholds.isSome
    simp [flight?, h] at this
  · have := hasks (.start d trigger now) (by simp)
    simp [Move.asks] at this

end Desk

/-- **A reset spares nothing but flights.** When a desk is reset, whatever other parts come between
those of the reset and after them:

* no document waits, and whatever is due later was scheduled after the reset;
* whatever is told of as new is delivered by a cycle that was in flight at the reset and is so ever
  since, or that began after it;
* what is among the interventions was there before or is told of as new;
* if no cycle was in flight and none is asked for from then on, nothing is told of as new, and once
  the interventions were removed, there are none, active or not. -/
theorem reset_spares_only_flights (k : Desk) (parts : List Part) :
    let begun := k.after .reset
    let later := begun.run parts
    (begun.engine.pending = 0 ∧ ∀ ms, ∀ w ∈ (later.engine.advance ms).1,
      .move (.schedule w.action.document w.action.trigger) ∈ parts) ∧
    (∀ p i, .created i ∈ later.told p →
      ∃ path a, p = .move (.goOn path a) ∧ begun.Stems path parts) ∧
    (∀ p, ∀ i ∈ (later.after p).engine.interventions,
      (∃ j ∈ later.engine.interventions, j.id = i.id) ∨ .created i ∈ later.told p) ∧
    (k.engine.flights = [] → (∀ m, .move m ∈ parts → m.asks = false) →
      (∀ p i, .created i ∉ later.told p) ∧
      ∀ before p after, parts = before ++ p :: after → (begun.run before).clears p = true →
        later.engine.interventions = [] ∧ later.engine.active = []) := by
  intro begun later
  refine ⟨⟨rfl, fun ms w hw => ?_⟩, fun p i hi => ?_, fun p i => Desk.known_or_created,
    fun hfree hasks => ⟨fun p i hi => ?_, ?_⟩⟩
  · have hwaits : w ∈ later.engine.timers.waiting :=
      List.mem_of_mem_filter ((Debouncer.dueBy_perm _ _).mem_iff.1 hw)
    refine (Desk.waiting_run hwaits).resolve_left fun h => ?_
    cases h
  · obtain ⟨path, a, rfl, hflight⟩ := Desk.exists_flight_of_created hi
    exact ⟨path, a, rfl, Desk.stems_run hflight⟩
  · obtain ⟨path, a, -, hflight⟩ := Desk.exists_flight_of_created hi
    have hnone : later.engine.flight? path = none :=
      Desk.flight?_run_of_not_asked (k := begun) hfree hasks path
    simp [hnone] at hflight
  · rintro before p after rfl hclears
    have hnone : later.engine.interventions = [] := by
      have hrun : later = ((begun.run before).after p).run after := by
        rw [← Desk.run_cons, ← Desk.run_append]
      rw [hrun]
      refine Desk.interventions_eq_nil_run (Desk.interventions_of_clears hclears) ?_
      rintro more q rest rfl i hi
      obtain ⟨path, a, -, hflight⟩ := Desk.exists_flight_of_created hi
      rw [← Desk.run_cons, ← Desk.run_append] at hflight
      rw [Desk.flight?_run_of_not_asked (k := begun) hfree (fun m hm => hasks m ?_) path] at hflight
      · cases hflight
      · simp only [List.mem_append, List.mem_cons] at hm ⊢
        tauto
    exact ⟨hnone, by rw [active, hnone, List.filter_nil]⟩

/-- A changed document waits while the feedback on it is reset. No cycle is in flight, so nothing
comes of the change. -/
theorem quiet_after_reset :
    let d : Document := ⟨"// TODO: x", "text", "a.txt"⟩
    let ids := fun n => String.ofList (List.replicate n 'x')
    let k := (Desk.fresh .default (.fresh ⟨.empty [], .memory .empty .none⟩) ids ⟨0, 0⟩).run
      [.move (.start d .onDemand ⟨0, 0⟩), .move (.goOn d.path (.ok "")),
        .move (.schedule d .change)]
    let parts : List Part := [.goOn 0, .move (.elapse 1000), .goOn 0, .goOn 0]
    let later := (k.after .reset).run parts
    (k.engine.active.length = 1 ∧ k.engine.pending = 1) ∧
    k.engine.flights = [] ∧ (∀ m, .move m ∈ parts → m.asks = false) ∧
    (∀ w, w ∉ (((k.after .reset).run [.goOn 0]).engine.advance 1000).1) ∧
    later.errands.length = 0 ∧ later.engine.active = [] ∧ ∀ p i, .created i ∉ later.told p := by
  intro d ids k parts later
  have hflights : k.engine.flights = [] := by decide +kernel
  have hasks : ∀ m, .move m ∈ parts → m.asks = false := by
    rintro m hm
    obtain rfl : m = .elapse 1000 := by simpa [parts] using hm
    rfl
  obtain ⟨⟨-, hdue⟩, -⟩ := reset_spares_only_flights k [.goOn 0]
  obtain ⟨-, -, -, hquiet⟩ := reset_spares_only_flights k parts
  obtain ⟨hnever, hnone⟩ := hquiet hflights hasks
  refine ⟨⟨by decide +kernel, by decide +kernel⟩, hflights, hasks, fun w hw => ?_,
    by decide +kernel, (hnone [] (.goOn 0) _ rfl (by decide +kernel)).2, hnever⟩
  simpa using hdue 1000 w hw

/-- A review waits for an answer while everything is reset. When the answer is there, the review
delivers what nobody has asked for since. -/
theorem delivers_after_reset :
    let d : Document := ⟨"// TODO: x", "text", "a.txt"⟩
    let ids := fun n => String.ofList (List.replicate n 'x')
    let k := (Desk.fresh { Settings.default with enhance := true }
      (.fresh ⟨.empty [], .memory .empty .none⟩) ids ⟨0, 0⟩).run
      [.move (.start d .onDemand ⟨0, 0⟩), .reset, .goOn 0, .goOn 0, .goOn 0]
    let last : Part := .move (.goOn d.path (.ok ""))
    k.errands.length = 0 ∧ k.engine.active = [] ∧
      ((k.after last).told last).filterMap Event.created? ≠ [] ∧
      ((k.after last).after last).engine.active ≠ [] := by
  decide +kernel

end CodeCoach.Engine
