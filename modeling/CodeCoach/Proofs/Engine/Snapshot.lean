import CodeCoach.Proofs.Engine.Delivery
import CodeCoach.Proofs.Engine.InFlight

/-!
# A cycle goes by what it found when it started

Once a cycle has its issues, it waits for nothing but answers to its questions. What happens in the
meantime is for the cycles to come.

* `Engine.lookedUp`, the engine when a cycle was let through and has looked up all its issues;
* `step?_eq_alone`: at every step it does what it would do if nothing else happened;
* `delivers_as_if_alone`: it delivers the same contexts and the same responses.
-/

namespace CodeCoach

/-- Answers after those to all questions do not count. -/
theorem contextsOf_append {s : Settings} {issues : List Issue} {answers : List Answer}
    (more : List Answer) (h : answers.length = questions s issues) :
    contextsOf s issues (answers ++ more) = contextsOf s issues answers := by
  unfold questions at h
  unfold contextsOf
  split
  · next he =>
    rw [if_pos he] at h
    rw [← List.append_nil issues, List.zipWith_append h.symm, List.append_nil, List.zipWith_nil_left,
      List.append_nil]
  · rfl

namespace Engine

/-! ### Waiting for answers -/

theorem abort_not_mem_map_goOn (path : String) (answers : List Answer) :
    Move.abort path ∉ answers.map (Move.goOn path) := by
  simp

section Asking

variable {e : Engine} {d : Document} {s : Settings} {issues : List Issue} {path : String}
  {moves : List Move}

/-- What a cycle that asks has become depends on the answers that it got, whatever else happened. -/
theorem step?_eq_alone (hf : e.flight? path = some ⟨d, s, .bringUp s issues⟩)
    (h : e.Lasts path moves) :
    (e.run moves).step? path = (e.run ((answersTo path moves).map (.goOn path))).step? path := by
  have hlength : (e.givensTo path moves).length ≤ questions s issues :=
    Flight.lasts_bringUp_iff.1 ((lasts_iff hf).1 h).2
  have halone : e.Lasts path ((answersTo path moves).map (.goOn path)) := by
    refine (lasts_iff hf).2 ⟨abort_not_mem_map_goOn path _, Flight.lasts_bringUp_iff.2 ?_⟩
    rwa [length_givensTo, answersTo_map_goOn, ← length_givensTo e]
  have hsame : (Flight.mk d s (.bringUp s issues)).run
      (e.givensTo path ((answersTo path moves).map (.goOn path))) =
      (Flight.mk d s (.bringUp s issues)).run (e.givensTo path moves) :=
    Flight.run_bringUp_congr hlength (by simp)
  rw [step?, step?, flight?_run hf h, flight?_run hf halone, hsame]

/-- A cycle that asks and that nobody drops delivers when it has got all its answers. -/
theorem exists_delivers_of_asking (hf : e.flight? path = some ⟨d, s, .bringUp s issues⟩)
    (habort : .abort path ∉ moves) (hanswers : questions s issues < (answersTo path moves).length) :
    ∃ list, e.Delivers path moves list := by
  refine exists_delivers_of_not_lasts habort fun hlasts => ?_
  have hmost := Flight.lasts_bringUp_iff.1 ((lasts_iff hf).1 hlasts).2
  rw [length_givensTo] at hmost
  omega

end Asking

/-! ### Asking -/

/-- The engine when a cycle was let through and has looked up all its issues. -/
def lookedUp (e : Engine) (d : Document) (trigger : Trigger) (now : Instant) : Engine :=
  (e.start d trigger now).2.run
    (List.replicate (lookups trigger (Review.ofDocument d)) (.goOn d.path (.ok "")))

theorem flight?_lookedUp {e : Engine} {d : Document} {trigger : Trigger} {now : Instant}
    (h : (e.start d trigger now).1 = none) :
    (e.lookedUp d trigger now).flight? d.path = some ⟨d, e.settings, .bringUp e.settings
      (select e.store.learning e.settings trigger (Review.ofDocument d))⟩ := by
  let own : List Answer := List.replicate (lookups trigger (Review.ofDocument d)) (.ok "")
  have hown : own.length = lookups trigger (Review.ofDocument d) := List.length_replicate
  have hmoves : List.replicate (lookups trigger (Review.ofDocument d)) (.goOn d.path (.ok "")) =
      own.map (Move.goOn d.path) := List.map_replicate.symm
  have hgivens := (e.start d trigger now).2.givensTo_map_goOn d.path own
  rw [store_start] at hgivens
  have hlasts : (e.start d trigger now).2.Lasts d.path (own.map (.goOn d.path)) := by
    have hlength : (answersTo d.path (own.map (.goOn d.path))).length =
        lookups trigger (Review.ofDocument d) := by
      rw [answersTo_map_goOn, hown]
    refine (lasts_start_iff h (abort_not_mem_map_goOn _ _) (Nat.le_of_eq hlength.symm)).2 ?_
    rw [hlength]
    exact Nat.le_add_right _ _
  rw [lookedUp, hmoves, flight?_run (flight?_launch h) hlasts, hgivens]
  refine congrArg some ((Flight.run_ofIssues (by rw [List.length_map, hown])).2.trans ?_)
  rw [selectBy_map_mk _ _ _ (Nat.le_of_eq hown.symm)]

/-- A cycle that has looked up its issues delivers the selected ones with the answers to its
questions, in the voice that was active when it started. -/
theorem words_of_delivers {e : Engine} {d : Document} {trigger : Trigger} {now : Instant}
    (hstart : (e.start d trigger now).1 = none) {moves : List Move} {list : List Intervention}
    (h : (e.lookedUp d trigger now).Delivers d.path moves list) :
    list.map Intervention.context =
        contextsOf e.settings (select e.store.learning e.settings trigger (Review.ofDocument d))
          (answersTo d.path moves) ∧
      list.map Intervention.response = list.map fun v => e.settings.voice.respond v.context := by
  have hf := flight?_lookedUp hstart
  obtain ⟨before, more, rfl, hlasts, hnext, issued, clock, rfl⟩ := h.exists_run_eq hf
  obtain ⟨hlength, hrun⟩ := Flight.run_bringUp_of_deliver ((lasts_iff hf).1 hlasts).2 hnext
  rw [length_givensTo] at hlength
  have hanswers : answersTo d.path (before ++ more) =
      answersTo d.path before ++ answersTo d.path more := List.filterMap_append
  rw [Flight.map_context_interventions, Flight.map_response_interventions, hrun,
    map_answer_givensTo, hanswers, contextsOf_append _ hlength]
  exact ⟨rfl, rfl⟩

/-- **A cycle goes by what it found when it started.** While a cycle that was let through waits for
answers to its questions, anything may happen but that it is dropped: settings change, developers
act on interventions, everything is forgotten, other cycles start, end and are dropped, and requests
for its own path come in. It asks the same questions, and it delivers the same contexts, in the same
order, and the same responses as with the same answers and nothing in between. These are made of the
issues that were selected by the settings and by what had been learned when it started. -/
theorem delivers_as_if_alone {e : Engine} {d : Document} {trigger : Trigger} {now : Instant}
    (hstart : (e.start d trigger now).1 = none) {moves : List Move} (habort : .abort d.path ∉ moves)
    (hanswers : questions e.settings
        (select e.store.learning e.settings trigger (Review.ofDocument d)) <
      (answersTo d.path moves).length) :
    let asking := e.lookedUp d trigger now
    let answers := answersTo d.path moves
    let alone := answers.map (Move.goOn d.path)
    let issues := select e.store.learning e.settings trigger (Review.ofDocument d)
    asking.phase d.path = .responding ∧
    (∀ before, before <+: moves → asking.Lasts d.path before →
      (asking.run before).step? d.path =
        (asking.run ((answersTo d.path before).map (.goOn d.path))).step? d.path) ∧
    (∃ list, asking.Delivers d.path moves list) ∧ (∃ list, asking.Delivers d.path alone list) ∧
    ∀ list, asking.Delivers d.path moves list →
      (∀ undisturbed, asking.Delivers d.path alone undisturbed →
        list.map Intervention.context = undisturbed.map Intervention.context ∧
        list.map Intervention.response = undisturbed.map Intervention.response) ∧
      (list.map Intervention.context =
        if e.settings.enhance then List.zipWith Issue.enhancedContext issues answers
        else issues.map Issue.context) ∧
      list.map Intervention.response = list.map fun v => e.settings.voice.respond v.context := by
  intro asking answers alone issues
  have hflight := flight?_lookedUp hstart
  have hown : answersTo d.path alone = answers := answersTo_map_goOn d.path answers
  refine ⟨?_, ?_, ?_, ?_, ?_⟩
  · rw [phase, hflight]
    rfl
  · intro before _ hlasts
    exact step?_eq_alone hflight hlasts
  · exact exists_delivers_of_asking hflight habort hanswers
  · exact exists_delivers_of_asking hflight (abort_not_mem_map_goOn d.path answers)
      (by rw [hown]; exact hanswers)
  · intro list hlist
    obtain ⟨hcontexts, hresponses⟩ := words_of_delivers hstart hlist
    refine ⟨fun undisturbed hundisturbed => ?_, hcontexts, hresponses⟩
    obtain ⟨hcontexts', hresponses'⟩ := words_of_delivers hstart hundisturbed
    rw [hown] at hcontexts'
    have hsame := hcontexts.trans hcontexts'.symm
    exact ⟨hsame, Intervention.map_response_congr hresponses hresponses' hsame⟩

/-- While a review waits for its first answer, the enhancer is switched off, another voice is chosen
and a marker is dismissed. The review goes on to ask about both of its issues; the second question
fails, which leaves the remedy as it is. -/
theorem asks_after_change_of_settings :
    let d : Document := ⟨"// TODO: x\n// FIXME: y", "text", "a.txt"⟩
    let ids := fun n => String.ofList (List.replicate n 'x')
    let first := fresh { Settings.default with enhance := true }
      (.fresh ⟨.empty [], .memory .empty .none⟩) ids ⟨0, 0⟩
    let e := first.run [.start ⟨"// TODO: x", "text", "b.txt"⟩ .onDemand ⟨0, 0⟩,
      .goOn "b.txt" (.ok "one"), .goOn "b.txt" (.ok "")]
    let moves : List Move := [
      .configure { Settings.default with personality := "security-first", maxSuggestions := 0 },
      .act "" .dismissed none, .goOn d.path (.ok "two"), .start d .save ⟨9, 0⟩,
      .goOn d.path (.error .emptySuggestion), .reset, .goOn d.path (.ok "")]
    (e.start d .onDemand ⟨5, 0⟩).1 = none ∧
    ∃ list, (e.lookedUp d .onDemand ⟨5, 0⟩).Delivers d.path moves list ∧
      list.map (fun v => v.context.suggestion) = [some "two",
        some "Resolve it, or track the work in an issue and remove the marker"] ∧
      list.map Intervention.response =
        list.map fun v => Settings.default.voice.respond v.context := by
  intro d ids first e moves
  have hstart : (e.start d .onDemand ⟨5, 0⟩).1 = none := by decide +kernel
  have habort : .abort d.path ∉ moves := by simp [moves]
  have hanswers : questions e.settings
      (select e.store.learning e.settings .onDemand (Review.ofDocument d)) <
      (answersTo d.path moves).length := by
    decide +kernel
  obtain ⟨-, -, ⟨list, hlist⟩, -, hwords⟩ := delivers_as_if_alone hstart habort hanswers
  obtain ⟨-, hcontexts, hresponses⟩ := hwords list hlist
  refine ⟨hstart, list, hlist, ?_, hresponses⟩
  rw [Intervention.map_of_context Context.suggestion, hcontexts]
  decide +kernel

end Engine

end CodeCoach
