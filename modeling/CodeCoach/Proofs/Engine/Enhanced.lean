import CodeCoach.Proofs.Engine.Events
import CodeCoach.Proofs.Engine.Snapshot
import CodeCoach.Proofs.Review.Order

/-!
# What the enhancer changes

A cycle that asks the enhancer delivers what it would deliver without it, but for the suggestions.

* `Flight.exchanges`, `Engine.exchanges`, the questions of a cycle with the answers to them;
* `Engine.ownTold`, the events that the steps of one cycle tell among all others;
* `Engine.exchanges_of_settle`: what a cycle has asked when it delivers;
* `Engine.TellsOfCalls`, what is told of a cycle that makes calls, and `Engine.Rewords`, what two
  deliveries for the same issues have in common;
* `rewords_suggestions`: a cycle with the enhancer and one without it, from the same state.
-/

namespace CodeCoach

/-! ### Remedies -/

/-- Every issue of a review comes with a remedy. -/
theorem Review.isSome_remedy {d : Document} {i : Issue} (h : i ∈ ofDocument d) :
    i.remedy.isSome := by
  rw [ofDocument, Family.issues_eq] at h
  obtain ⟨_, line, rest, -, f, hf, rfl⟩ := mem_overLines h
  unfold Family.ruleSet at hf
  split at hf
  · cases hf
  · obtain ⟨r, -, hf⟩ := List.mem_flatMap.1 hf
    exact (Rule.of_mem_findings hf).2.2

theorem mem_of_mem_select {l : Learning} {s : Settings} {trigger : Trigger} {issues : List Issue}
    {i : Issue} (h : i ∈ select l s trigger issues) : i ∈ issues := by
  unfold select at h
  split at h
  · exact (List.mem_filter.1 h).1
  · exact (List.mem_filter.1 (mem_of_mem_limited h)).1

/-- The suggestion for an issue after the answer to its question. -/
def Issue.suggestion (i : Issue) : Answer → Option String
  | .ok text => some text
  | .error _ => i.remedy

theorem Issue.enhancedContext_eq :
    enhancedContext = fun i a => { i.context with suggestion := i.suggestion a } := by
  funext i a
  cases a <;> rfl

/-- An issue that has a remedy is the same when the remedy comes back as it is. -/
theorem Issue.enhancedContext_identity {i : Issue} (h : i.remedy.isSome) (languageTag : String) :
    i.enhancedContext (Enhancer.identity (i.question languageTag)) = i.context := by
  obtain ⟨remedy, hremedy⟩ := Option.isSome_iff_exists.1 h
  simp [enhancedContext, Enhancer.identity, question, context, hremedy]

/-- Issues that have remedies are the same when all of these come back as they are. -/
theorem zipWith_enhancedContext_identity {issues : List Issue} {languageTag : String}
    {calls : List (Question × Answer)} (hremedy : ∀ i ∈ issues, i.remedy.isSome)
    (hquestions : calls.map Prod.fst = issues.map (·.question languageTag))
    (hcalls : ∀ call ∈ calls, call.2 = Enhancer.identity call.1) :
    List.zipWith Issue.enhancedContext issues (calls.map Prod.snd) = issues.map Issue.context := by
  have hanswers : calls.map Prod.snd =
      issues.map fun i => Enhancer.identity (i.question languageTag) := by
    calc calls.map Prod.snd
      _ = calls.map (Enhancer.identity ∘ Prod.fst) := List.map_congr_left hcalls
      _ = (calls.map Prod.fst).map Enhancer.identity := List.map_map.symm
      _ = issues.map fun i => Enhancer.identity (i.question languageTag) := by
        rw [hquestions, List.map_map]
        rfl
  rw [hanswers, List.zipWith_map_right, List.zipWith_self]
  exact List.map_congr_left fun i hi => Issue.enhancedContext_identity (hremedy i hi) languageTag

/-! ### Questions and answers -/

namespace Flight

/-- The next question of a flight with the answer to it. -/
def exchange? (f : Flight) (g : Given) : Option (Question × Answer) :=
  match f.next with
  | .ask q => some (q, g.answer)
  | .lookUp _ => none
  | .deliver => none

/-- The questions of a flight with the answers to them. -/
def exchanges (f : Flight) : List Given → List (Question × Answer)
  | [] => []
  | g :: givens => (f.exchange? g).toList ++ (f.goOn g).exchanges givens

theorem exchanges_append (f : Flight) (givens more : List Given) :
    f.exchanges (givens ++ more) = f.exchanges givens ++ (f.run givens).exchanges more := by
  induction givens generalizing f with
  | nil => rfl
  | cons g givens ih => simp [exchanges, ih]

section Stages

variable {d : Document} {s : Settings} {givens : List Given}

theorem exchanges_filter (kept : List Issue) {unseen : List Issue}
    (h : givens.length ≤ unseen.length) :
    (Flight.mk d s (.filter s kept unseen)).exchanges givens = [] := by
  induction givens generalizing kept unseen with
  | nil => rfl
  | cons g givens ih =>
    cases unseen with
    | nil => simp at h
    | cons i unseen =>
      rw [exchanges, goOn_filter, ih _ (Nat.le_of_succ_le_succ h)]
      rfl

/-- When all lookups are done, each answer is that to the question about the next issue. -/
theorem exchanges_responding (ready : List Context) {rest : List Issue}
    (h : givens.length ≤ rest.length) :
    (Flight.mk d s (.responding ready rest)).exchanges givens =
      (rest.map (·.question d.languageTag)).zip (givens.map Given.answer) := by
  induction givens generalizing ready rest with
  | nil => simp [exchanges]
  | cons g givens ih =>
    cases rest with
    | nil => simp at h
    | cons i rest =>
      rw [exchanges, goOn_responding, ih _ (Nat.le_of_succ_le_succ h)]
      rfl

theorem exchanges_bringUp {issues : List Issue} (h : givens.length = questions s issues) :
    (Flight.mk d s (.bringUp s issues)).exchanges givens =
      if s.enhance then (issues.map (·.question d.languageTag)).zip (givens.map Given.answer)
      else [] := by
  unfold questions at h
  rw [Stage.bringUp]
  split at h
  · next he =>
    simp only [if_pos he]
    exact exchanges_responding _ (Nat.le_of_eq h)
  · next he =>
    simp only [if_neg he]
    rw [List.eq_nil_of_length_eq_zero h]
    rfl

theorem exchanges_lookups {trigger : Trigger} {issues : List Issue}
    (h : givens.length = lookups trigger issues) :
    (Flight.mk d s (.ofIssues s trigger issues)).exchanges givens = [] := by
  unfold lookups at h
  unfold Stage.ofIssues
  split at h
  · rw [List.eq_nil_of_length_eq_zero h]
    rfl
  · next hne =>
    rw [if_neg hne]
    exact exchanges_filter [] (Nat.le_of_eq h)

/-- The questions of a cycle when it has only to deliver. -/
theorem exchanges_of_deliver {trigger : Trigger} {issues : List Issue}
    (hlasts : (Flight.mk d s (.ofIssues s trigger issues)).Lasts givens)
    (hnext : ((Flight.mk d s (.ofIssues s trigger issues)).run givens).next = .deliver) :
    (Flight.mk d s (.ofIssues s trigger issues)).exchanges givens =
      if s.enhance then
        ((selectBy s trigger issues givens).map (·.question d.languageTag)).zip
          ((givens.map Given.answer).drop (lookups trigger issues))
      else [] := by
  obtain ⟨early, late, hgivens, hearly, hanswers, hrun, hlate, hend⟩ :=
    exists_lookups_of_deliver hlasts hnext
  have hexchanges : (Flight.mk d s (.ofIssues s trigger issues)).exchanges givens =
      (Flight.mk d s (.bringUp s (selectBy s trigger issues givens))).exchanges late := by
    conv_lhs => rw [hgivens]
    rw [exchanges_append, exchanges_lookups hearly, hrun, List.nil_append]
  rw [hexchanges, exchanges_bringUp (run_bringUp_of_deliver hlate hend).1, hanswers]

end Stages

end Flight

namespace Engine

/-- The question that a move answers for the cycle of a path, with the answer. -/
def exchange? (e : Engine) (path : String) (m : Move) : Option (Question × Answer) :=
  match e.step? path, m.answerTo? path with
  | some (.ask q), some a => some (q, a)
  | _, _ => none

/-- The questions that the cycle of a path asks in the course of moves, with the answers to them. -/
def exchanges (e : Engine) (path : String) : List Move → List (Question × Answer)
  | [] => []
  | m :: moves => (e.exchange? path m).toList ++ (e.after m).exchanges path moves

/-- The events that the steps of the cycle of a path tell in the course of moves. -/
def ownTold (e : Engine) (path : String) : List Move → List Event
  | [] => []
  | m :: moves =>
    (if (m.answerTo? path).isSome then e.told m else []) ++ (e.after m).ownTold path moves

section Cycle

variable {e : Engine} {path : String} {f : Flight} {moves : List Move}

/-- A move that does not end a cycle gives its flight the answer, asks what comes next, and tells of
the call if it failed. -/
theorem exchange?_eq (hf : e.flight? path = some f) (m : Move) :
    e.exchange? path m = (e.givenTo? path m).bind f.exchange? := by
  have hstep : e.step? path = some f.next := by rw [step?, hf, Option.map_some]
  cases ha : m.answerTo? path with
  | none => simp [exchange?, givenTo?, ha]
  | some a => cases hn : f.next <;> simp [exchange?, givenTo?, ha, hstep, hn, Flight.exchange?]

/-- The questions of a cycle depend on what its steps are given, whatever else happens. -/
theorem exchanges_eq (hf : e.flight? path = some f) (h : e.Lasts path moves) :
    e.exchanges path moves = f.exchanges (e.givensTo path moves) := by
  induction moves generalizing e f with
  | nil => rfl
  | cons m moves ih =>
    have hnext := flight?_after (not_begins_of_flight? hf m) h.1
    rw [hf, Option.map_some] at hnext
    rw [exchanges, exchange?_eq hf, ih hnext h.2, givensTo, Flight.exchanges_append]
    cases e.givenTo? path m <;> simp [Flight.exchanges]

/-- As long as a cycle lasts, its steps tell of the calls that failed, and of nothing else. -/
theorem ownTold_eq (hf : e.flight? path = some f) (h : e.Lasts path moves) :
    e.ownTold path moves = (e.exchanges path moves).flatMap fun call => answerEvents call.2 := by
  induction moves generalizing e f with
  | nil => rfl
  | cons m moves ih =>
    have hnext := flight?_after (not_begins_of_flight? hf m) h.1
    rw [hf, Option.map_some] at hnext
    rw [ownTold, exchanges, List.flatMap_append, ih hnext h.2, exchange?_eq hf, givenTo?]
    cases ha : m.answerTo? path with
    | none => simp
    | some a =>
      obtain rfl := Move.eq_goOn_of_answerTo? ha
      have hn : f.next ≠ .deliver := fun hn => h.1 ((ends_iff hf).2 (Or.inr ⟨a, rfl, hn⟩))
      rw [told_eq (m := .goOn path a) (events_goOn hf a)]
      cases hnext : f.next with
      | deliver => exact absurd hnext hn
      | lookUp i => simp [Flight.exchange?, hnext]
      | ask q => simp [Flight.exchange?, hnext]

/-- What the steps of a cycle tell is among all that is told, in the same order. -/
theorem exists_events_run (e : Engine) (path : String) (moves : List Move) :
    ∃ told, (e.run moves).events = e.events ++ told ∧ (e.ownTold path moves).Sublist told ∧
      ((∀ m ∈ moves, (m.answerTo? path).isSome) → told = e.ownTold path moves) := by
  induction moves generalizing e with
  | nil => exact ⟨[], by simp, List.Sublist.refl _, fun _ => rfl⟩
  | cons m moves ih =>
    obtain ⟨told, hevents, hsub, hown⟩ := ih (e.after m)
    refine ⟨e.told m ++ told, ?_, ?_, fun hall => ?_⟩
    · rw [run_cons, hevents, events_after, List.append_assoc]
    · refine List.Sublist.append ?_ hsub
      split
      · exact List.Sublist.refl _
      · exact List.nil_sublist _
    · rw [ownTold, if_pos (hall m List.mem_cons_self),
        hown fun n hn => hall n (List.mem_cons_of_mem m hn)]

end Cycle

/-! ### One cycle -/

/-- The engine with the enhancer switched on or off. -/
def withEnhance (e : Engine) (enhance : Bool) : Engine :=
  { e with settings := { e.settings with enhance := enhance } }

/-- The answer to a request, as far as it says why a cycle does not start. -/
theorem start_fst (e : Engine) (d : Document) (trigger : Trigger) (now : Instant) :
    (e.start d trigger now).1 =
      if trigger ≠ .onDemand ∧ e.settings.proactive = false then some .disabled
      else if (e.flight? d.path).isSome then some .busy
      else if ((e.cooldown.setWindow e.settings.cooldownSeconds).remaining d.path now).isSome then
        some .coolingDown
      else none := by
  cases e.requested d trigger now with
  | disabled heq hoff => rw [heq, if_pos hoff]
  | busy heq hon hflight => rw [heq, if_neg hon, if_pos hflight]
  | coolingDown heq hon hfree hleft => rw [heq, if_neg hon, hfree, if_neg (by simp), if_pos hleft]
  | admitted heq hon hfree hleft =>
    rw [heq, if_neg hon, hfree, if_neg (by simp), hleft, if_neg (by simp)]

/-- Whether a cycle starts does not depend on the enhancer. -/
theorem start_withEnhance_fst (e : Engine) (enhance : Bool) (d : Document) (trigger : Trigger)
    (now : Instant) :
    ((e.withEnhance enhance).start d trigger now).1 = (e.start d trigger now).1 := by
  rw [start_fst, start_fst]
  rfl

section Words

variable {e : Engine} {d : Document} {trigger : Trigger} {now : Instant} {l : Learning}
  {list : List Intervention}

/-- A cycle that delivers has asked about the issues that it brings up, if it asks at all. -/
theorem exchanges_of_settle (hstart : (e.start d trigger now).1 = none) {before : List Move}
    (hlasts : (e.start d trigger now).2.Lasts d.path before)
    (hsettle : (((e.start d trigger now).2.run before).settle d.path).1 = some list) :
    let issues := selectBy e.settings trigger (Review.ofDocument d)
      ((e.start d trigger now).2.givensTo d.path before)
    let answers := (answersTo d.path before).drop (lookups trigger (Review.ofDocument d))
    (e.start d trigger now).2.exchanges d.path before =
      if e.settings.enhance then (issues.map (·.question d.languageTag)).zip answers else [] := by
  intro issues answers
  have hf := flight?_launch hstart
  obtain ⟨f, hf', hn, -⟩ := settle_fst_eq_some_iff.1 hsettle
  obtain rfl := Option.some.inj ((flight?_run hf hlasts).symm.trans hf')
  rw [exchanges_eq hf hlasts]
  refine (Flight.exchanges_of_deliver ((lasts_iff hf).1 hlasts).2 hn).trans ?_
  rw [map_answer_givensTo]

/-- A cycle with the enhancer asks about each issue, and delivers it with the answer. -/
theorem words_of_settle_asking (hstart : (e.start d trigger now).1 = none)
    (henhance : e.settings.enhance = true) {before : List Move}
    (hlookups : (e.start d trigger now).2.LooksUpIn d.path l before)
    (hlasts : (e.start d trigger now).2.Lasts d.path before)
    (hsettle : (((e.start d trigger now).2.run before).settle d.path).1 = some list) :
    let issues := select l e.settings trigger (Review.ofDocument d)
    let calls := (e.start d trigger now).2.exchanges d.path before
    calls.map Prod.fst = issues.map (·.question d.languageTag) ∧
    list.map Intervention.context =
      List.zipWith Issue.enhancedContext issues (calls.map Prod.snd) ∧
    list.map Intervention.response = list.map fun v => e.settings.voice.respond v.context := by
  intro issues calls
  obtain ⟨hlength, hcontexts, hresponses⟩ := words_of_settle hstart hlasts hsettle
  have hcalls : calls = _ := exchanges_of_settle hstart hlasts hsettle
  rw [selectBy_of_looksUpIn hstart hlasts (by omega) hlookups] at hlength hcontexts hcalls
  rw [questions, henhance, if_pos rfl] at hlength
  rw [contextsOf, henhance, if_pos rfl] at hcontexts
  rw [henhance, if_pos rfl] at hcalls
  have hanswers : ((answersTo d.path before).drop
      (lookups trigger (Review.ofDocument d))).length = issues.length := by
    rw [List.length_drop, hlength, Nat.add_sub_cancel_left]
  refine ⟨?_, ?_, hresponses⟩
  · rw [hcalls, List.map_fst_zip (by rw [List.length_map, hanswers])]
  · rw [hcalls, List.map_snd_zip (by rw [List.length_map, hanswers]), hcontexts]

/-- A cycle that asks nobody delivers the issues as they are. -/
theorem words_of_settle_silent (hstart : (e.start d trigger now).1 = none)
    (henhance : e.settings.enhance = false) {before : List Move}
    (hlookups : (e.start d trigger now).2.LooksUpIn d.path l before)
    (hlasts : (e.start d trigger now).2.Lasts d.path before)
    (hsettle : (((e.start d trigger now).2.run before).settle d.path).1 = some list) :
    list.map Intervention.context =
        (select l e.settings trigger (Review.ofDocument d)).map Issue.context ∧
      list.map Intervention.response = list.map fun v => e.settings.voice.respond v.context := by
  obtain ⟨hlength, hcontexts, hresponses⟩ := words_of_settle hstart hlasts hsettle
  rw [selectBy_of_looksUpIn hstart hlasts (by omega) hlookups, contextsOf, henhance,
    if_neg (by simp)] at hcontexts
  exact ⟨hcontexts, hresponses⟩

end Words

/-! ### With the enhancer and without it -/

/-- What is told of a cycle that makes calls and delivers after some moves. -/
structure TellsOfCalls (e : Engine) (path : String) (before : List Move)
    (calls : List (Question × Answer)) (list : List Intervention) : Prop where
  /-- Until it delivers, the cycle tells of each call that failed, in order, and of nothing else. -/
  warnings : e.ownTold path before = calls.flatMap fun call => answerEvents call.2
  /-- What is new is told last, all at once, after the warnings and whatever others told. -/
  created : ∃ told, (e.ownTold path before).Sublist told ∧
    ((∀ m ∈ before, (m.answerTo? path).isSome) → told = e.ownTold path before) ∧
    ∀ a, (e.run (before ++ [.goOn path a])).events = e.events ++ told ++ list.map .created

theorem tellsOfCalls {e : Engine} {path : String} {f : Flight} {before : List Move}
    {list : List Intervention} (hf : e.flight? path = some f) (hlasts : e.Lasts path before)
    (hsettle : ((e.run before).settle path).1 = some list) :
    TellsOfCalls e path before (e.exchanges path before) list := by
  obtain ⟨g, hg, hn, rfl⟩ := settle_fst_eq_some_iff.1 hsettle
  obtain ⟨told, hevents, hsub, hown⟩ := exists_events_run e path before
  refine ⟨ownTold_eq hf hlasts, told, hsub, hown, fun a => ?_⟩
  rw [run_concat, after, events_goOn hg, hevents, hn]

/-- Two deliveries for the same issues, where only the first one comes with the answers of the
enhancer. -/
structure Rewords (voice : Personality) (issues : List Issue) (answers : List Answer)
    (list plain : List Intervention) : Prop where
  length : list.length = plain.length
  plainContexts : plain.map Intervention.context = issues.map Issue.context
  /-- Nothing but the suggestion for an issue is another, and only where the answer is a text. -/
  contexts : list.map Intervention.context =
    List.zipWith (fun i a => { i.context with suggestion := i.suggestion a }) issues answers
  patternKeys : list.map (fun v => v.context.patternKey) = plain.map fun v => v.context.patternKey
  responses : list.map Intervention.response = list.map fun v => voice.respond v.context
  plainResponses : plain.map Intervention.response = plain.map fun v => voice.respond v.context

/-- **What the enhancer changes.** A cycle with the enhancer and one without it start from the same
state.  They are let through or refused alike, and they deliver when their steps are done.  What
happens in the meantime does not count, as long as the lookups come out as by what had been learned at
the start, which is so if nothing happens.  The enhancer is asked about each selected issue in order.
Both cycles bring up these issues, under the same patterns, and put them into the words of the active
personality; where a call succeeds, the suggestion is the text that came back, and everywhere else it
is the remedy.  There is one warning for each call that failed, before anything new is told.  An
enhancer that gives every text back changes nothing at all. -/
theorem rewords_suggestions (e : Engine) (d : Document) (trigger : Trigger) (now : Instant) :
    let on := e.withEnhance true
    let off := e.withEnhance false
    let asking := (on.start d trigger now).2
    let silent := (off.start d trigger now).2
    let l := e.store.learning
    let issues := select l e.settings trigger (Review.ofDocument d)
    (on.start d trigger now).1 = (off.start d trigger now).1 ∧
    (∀ answers : List Answer, asking.LooksUpIn d.path l (answers.map (.goOn d.path)) ∧
      silent.LooksUpIn d.path l (answers.map (.goOn d.path))) ∧
    ((off.start d trigger now).1 = none →
      (∀ moves, .abort d.path ∉ moves →
        asking.LooksUpIn d.path l moves → silent.LooksUpIn d.path l moves →
        lookups trigger (Review.ofDocument d) + issues.length < (answersTo d.path moves).length →
        (∃ list, asking.Delivers d.path moves list) ∧
          ∃ plain, silent.Delivers d.path moves plain) ∧
      ∀ before list, asking.LooksUpIn d.path l before → asking.Lasts d.path before →
        ((asking.run before).settle d.path).1 = some list →
        let calls := asking.exchanges d.path before
        calls.map Prod.fst = issues.map (·.question d.languageTag) ∧
        TellsOfCalls asking d.path before calls list ∧
        ∀ moves plain, silent.LooksUpIn d.path l moves → silent.Delivers d.path moves plain →
          Rewords e.settings.voice issues (calls.map Prod.snd) list plain ∧
          ((∀ call ∈ calls, call.2 = Enhancer.identity call.1) →
            list.map Intervention.context = plain.map Intervention.context ∧
            list.map Intervention.response = plain.map Intervention.response)) := by
  intro on off asking silent l issues
  have hsame : (on.start d trigger now).1 = (off.start d trigger now).1 := by
    rw [start_withEnhance_fst, start_withEnhance_fst]
  have halone : ∀ (begun : Engine), begun.store = e.store → ∀ answers : List Answer,
      begun.LooksUpIn d.path l (answers.map (.goOn d.path)) := by
    intro begun hstore answers
    have hlookups := begun.looksUpIn_map_goOn d.path answers
    rwa [hstore] at hlookups
  refine ⟨hsame, fun answers => ⟨?_, ?_⟩, fun hoff => ?_⟩
  · exact halone asking (on.store_start d trigger now) answers
  · exact halone silent (off.store_start d trigger now) answers
  have hon : (on.start d trigger now).1 = none := hsame.trans hoff
  constructor
  · intro moves habort hasking hsilent hsteps
    refine ⟨exists_delivers_of_looksUpIn hon habort hasking hsteps,
      exists_delivers_of_looksUpIn hoff habort hsilent ?_⟩
    exact Nat.lt_of_le_of_lt (Nat.le_add_right _ _) hsteps
  · intro before list hlookups hlasts hsettle calls
    obtain ⟨hquestions, hcontexts, hresponses⟩ :=
      words_of_settle_asking hon rfl hlookups hlasts hsettle
    refine ⟨hquestions, tellsOfCalls (flight?_launch hon) hlasts hsettle, ?_⟩
    rintro moves plain hsilent ⟨early, a, rest, rfl, hearly, hplain⟩
    have hsilent := hsilent.of_append
    obtain ⟨hplainContexts, hplainResponses⟩ :=
      words_of_settle_silent hoff rfl hsilent hearly hplain
    have hbrings := bringsUp_of_looksUpIn hon hlasts hlookups hsettle
    have hplainBrings := bringsUp_of_looksUpIn hoff hearly hsilent hplain
    refine ⟨⟨?_, hplainContexts, ?_, ?_, hresponses, hplainResponses⟩, fun hidentity => ?_⟩
    · exact hbrings.length_eq.trans hplainBrings.length_eq.symm
    · rw [hcontexts, Issue.enhancedContext_eq]
      rfl
    · exact (map_patternKey_of_bringsUp hbrings).trans
        (map_patternKey_of_bringsUp hplainBrings).symm
    · have hremedy : ∀ i ∈ issues, i.remedy.isSome := fun i hi =>
        Review.isSome_remedy (mem_of_mem_select hi)
      have hsameContexts : list.map Intervention.context = plain.map Intervention.context :=
        hcontexts.trans ((zipWith_enhancedContext_identity hremedy hquestions hidentity).trans
          hplainContexts.symm)
      exact ⟨hsameContexts,
        Intervention.map_response_congr hresponses hplainResponses hsameContexts⟩

/-- Of the calls about two markers the second one fails. -/
theorem rewords_suggestions_secondFails :
    let d : Document := ⟨"// TODO: x\n// FIXME: y", "text", "a.txt"⟩
    let e := fresh Settings.default (.fresh ⟨.empty [], .memory .empty .none⟩)
      (fun n => String.ofList (List.replicate n 'x')) ⟨0, 0⟩
    let asking := ((e.withEnhance true).start d .onDemand ⟨0, 0⟩).2
    let before : List Move :=
      [.goOn d.path (.ok "track it"), .goOn d.path (.error .emptySuggestion)]
    ∃ list, ((asking.run before).settle d.path).1 = some list ∧
      list.map (fun v => v.context.suggestion) = [some "track it",
        some "Resolve it, or track the work in an issue and remove the marker"] ∧
      (asking.run (before ++ [.goOn d.path (.ok "")])).events =
        .warning "AI enhancement unavailable: enhancement service returned an empty suggestion" ::
          list.map .created := by
  intro d e asking before
  obtain ⟨-, halone, h⟩ := rewords_suggestions e d .onDemand ⟨0, 0⟩
  obtain ⟨hdelivers, hwords⟩ := h (by decide +kernel)
  have hstart : ((e.withEnhance true).start d .onDemand ⟨0, 0⟩).1 = none := by decide +kernel
  have hlasts : asking.Lasts d.path before :=
    (lasts_start_iff hstart (by simp [before]) (by decide +kernel)).2 (by decide +kernel)
  have hlookups := halone [.ok "track it", .error .emptySuggestion]
  have hmore := halone [.ok "track it", .error .emptySuggestion, .ok ""]
  obtain ⟨list, hlist⟩ : ∃ list, ((asking.run before).settle d.path).1 = some list :=
    Option.isSome_iff_exists.1 (by decide +kernel)
  obtain ⟨-, htells, hrewords⟩ := hwords before list hlookups.1 hlasts hlist
  obtain ⟨-, plain, hplain⟩ := hdelivers (before ++ [.goOn d.path (.ok "")]) (by simp [before])
    hmore.1 hmore.2 (by decide +kernel)
  obtain ⟨told, -, hown, hevents⟩ := htells.created
  refine ⟨list, hlist, ?_, ?_⟩
  · rw [Intervention.map_of_context Context.suggestion, (hrewords _ plain hmore.2 hplain).1.contexts]
    decide +kernel
  · rw [hevents, hown (by decide +kernel), htells.warnings]
    have hwarning : (asking.exchanges d.path before).flatMap (fun call => answerEvents call.2) =
        [.warning "AI enhancement unavailable: enhancement service returned an empty suggestion"] :=
      by decide +kernel
    rw [hwarning]
    rfl

end Engine

end CodeCoach
