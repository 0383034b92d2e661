import CodeCoach.Proofs.Engine.Cycles
import CodeCoach.Proofs.Frequency
import Mathlib.Data.List.Forall2

/-!
# What a cycle delivers

A cycle selects issues by the settings of its start and by what has been learned at its lookups.

* `Intervention.BringsUp`, the relation between an issue and the intervention that comes of it;
* `Engine.words_of_settle`, the contexts and the responses that are delivered;
* `Engine.bringsUp_of_delivers`: what is delivered in the course of any moves brings up the issues that
  were selected, each looked up in what had been learned by then;
* `Engine.Selects`, which issues a cycle brings up, and in what order, if nothing is learned between its
  lookups, and `selects_of_delivers`.
-/

namespace CodeCoach

/-! ### Interventions and their issues -/

/-- The intervention brings up the issue. Where the enhancer is not asked, its context is that of
the issue; the enhancer may give another suggestion, and nothing else. -/
def Intervention.BringsUp (enhance : Bool) (v : Intervention) (i : Issue) : Prop :=
  v.context = i.context ∨
    (enhance = true ∧ ∃ text, v.context = { i.context with suggestion := some text })

theorem Intervention.BringsUp.patternKey {enhance : Bool} {v : Intervention} {i : Issue}
    (h : v.BringsUp enhance i) : v.context.patternKey = i.patternKey := by
  rcases h with h | ⟨-, text, h⟩ <;> rw [h] <;> rfl

/-- The pattern keys of interventions are those of the issues that they bring up. -/
theorem map_patternKey_of_bringsUp {enhance : Bool} {list : List Intervention}
    {issues : List Issue} (h : List.Forall₂ (Intervention.BringsUp enhance) list issues) :
    list.map (fun v => v.context.patternKey) = issues.map Issue.patternKey := by
  induction h with
  | nil => rfl
  | cons hv _ ih => rw [List.map_cons, List.map_cons, hv.patternKey, ih]

theorem exists_issue_of_bringsUp {enhance : Bool} {list : List Intervention} {issues : List Issue}
    (h : List.Forall₂ (Intervention.BringsUp enhance) list issues) {v : Intervention}
    (hv : v ∈ list) : ∃ i ∈ issues, v.BringsUp enhance i := by
  induction h with
  | nil => simp at hv
  | cons hfirst _ ih =>
    rcases List.mem_cons.1 hv with rfl | hv
    · exact ⟨_, List.mem_cons_self, hfirst⟩
    · obtain ⟨i, hi, hbrings⟩ := ih hv
      exact ⟨i, List.mem_cons_of_mem _ hi, hbrings⟩

/-- What is read off interventions by their contexts is read off these contexts. -/
theorem Intervention.map_of_context {β : Type} (f : Context → β) (list : List Intervention) :
    list.map (fun v => f v.context) = (list.map Intervention.context).map f :=
  List.map_map.symm

/-- One voice responds to the same contexts in the same way. -/
theorem Intervention.map_response_congr {voice : Personality} {list list' : List Intervention}
    (h : list.map Intervention.response = list.map fun v => voice.respond v.context)
    (h' : list'.map Intervention.response = list'.map fun v => voice.respond v.context)
    (hcontexts : list.map Intervention.context = list'.map Intervention.context) :
    list.map Intervention.response = list'.map Intervention.response := by
  rw [h, h', map_of_context, map_of_context, hcontexts]

/-! ### The contexts of a flight -/

namespace Flight

theorem map_context_interventions (f : Flight) (ids : Nat → String) (start : Nat) (now : Instant) :
    (f.interventions ids start now).map Intervention.context = f.ready := by
  apply List.ext_getElem
  · simp [interventions]
  · intro k hk hk'
    simp [interventions, Intervention.create]

/-- What is delivered is put into words by the personality of the flight. -/
theorem map_response_interventions (f : Flight) (ids : Nat → String) (start : Nat) (now : Instant) :
    (f.interventions ids start now).map Intervention.response =
      (f.interventions ids start now).map fun v => f.settings.voice.respond v.context := by
  apply List.ext_getElem
  · simp
  · intro k hk hk'
    simp [interventions, Intervention.create]

end Flight

/-- Each of the contexts is that of an issue, with the answer to its question. -/
theorem forall₂_contextsOf {s : Settings} {issues : List Issue} {answers : List Answer}
    (h : answers.length = questions s issues) :
    List.Forall₂
      (fun (c : Context) (i : Issue) => c = i.context ∨
        (s.enhance = true ∧ ∃ text, c = { i.context with suggestion := some text }))
      (contextsOf s issues answers) issues := by
  unfold contextsOf
  unfold questions at h
  cases he : s.enhance with
  | false =>
    rw [if_neg (by simp), List.forall₂_map_left_iff]
    exact List.forall₂_same.2 fun i _ => Or.inl rfl
  | true =>
    rw [he, if_pos rfl] at h
    rw [if_pos rfl]
    clear he
    induction issues generalizing answers with
    | nil => simp
    | cons i issues ih =>
      cases answers with
      | nil => simp at h
      | cons a answers =>
        refine .cons ?_ (ih (by simpa using h))
        cases a with
        | ok text => exact Or.inr ⟨rfl, text, rfl⟩
        | error cause => exact Or.inl rfl

namespace Engine

/-! ### Words -/

section Words

variable {e : Engine} {d : Document} {trigger : Trigger} {now : Instant} {list : List Intervention}

/-- What a cycle that was let through delivers after some moves, and how many steps it has done by
then: it has looked up its issues, each in what had been learned by then, it has asked about those
that are brought up, and it uses the voice that was active when it started. -/
theorem words_of_settle (hstart : (e.start d trigger now).1 = none) {before : List Move}
    (hlasts : (e.start d trigger now).2.Lasts d.path before)
    (hsettle : (((e.start d trigger now).2.run before).settle d.path).1 = some list) :
    let issues := selectBy e.settings trigger (Review.ofDocument d)
      ((e.start d trigger now).2.givensTo d.path before)
    let answers := (answersTo d.path before).drop (lookups trigger (Review.ofDocument d))
    (answersTo d.path before).length =
      lookups trigger (Review.ofDocument d) + questions e.settings issues ∧
    list.map Intervention.context = contextsOf e.settings issues answers ∧
    list.map Intervention.response = list.map fun v => e.settings.voice.respond v.context := by
  intro issues answers
  have hf := flight?_launch hstart
  obtain ⟨f, hf', hn, rfl⟩ := settle_fst_eq_some_iff.1 hsettle
  obtain rfl := Option.some.inj ((flight?_run hf hlasts).symm.trans hf')
  obtain ⟨hlength, hrun⟩ := Flight.run_of_deliver ((lasts_iff hf).1 hlasts).2 hn
  rw [length_givensTo] at hlength
  refine ⟨hlength, ?_, ?_⟩
  · rw [Flight.map_context_interventions]
    exact (congrArg Flight.ready hrun).trans (by rw [map_answer_givensTo]; rfl)
  · rw [Flight.map_response_interventions, Flight.settings_run]
    rfl

/-- Each of the issues is brought up. -/
theorem bringsUp_of_settle (hstart : (e.start d trigger now).1 = none) {before : List Move}
    (hlasts : (e.start d trigger now).2.Lasts d.path before)
    (hsettle : (((e.start d trigger now).2.run before).settle d.path).1 = some list) :
    List.Forall₂ (Intervention.BringsUp e.settings.enhance) list
      (selectBy e.settings trigger (Review.ofDocument d)
        ((e.start d trigger now).2.givensTo d.path before)) := by
  obtain ⟨hlength, hcontexts, -⟩ := words_of_settle hstart hlasts hsettle
  have hanswers : ((answersTo d.path before).drop (lookups trigger (Review.ofDocument d))).length =
      questions e.settings (selectBy e.settings trigger (Review.ofDocument d)
        ((e.start d trigger now).2.givensTo d.path before)) := by
    rw [List.length_drop]
    omega
  have hready := forall₂_contextsOf hanswers
  rw [← hcontexts, List.forall₂_map_left_iff] at hready
  exact hready

end Words

/-! ### Deliveries -/

/-- The interventions are those of a cycle: on demand, of all issues that the frequency allows, in
the order of the review, and otherwise of the foremost among those of them that are worth showing. -/
structure Selects (l : Learning) (s : Settings) (trigger : Trigger) (issues : List Issue)
    (list : List Intervention) : Prop where
  onDemand : trigger = .onDemand →
    List.Forall₂ (Intervention.BringsUp s.enhance) list (issues.filter s.frequency.allows)
  otherwise : trigger ≠ .onDemand → ∃ kept : List (Issue × Nat),
    Foremost s.maxSuggestions (issues.filter fun i => l.shows i && s.frequency.allows i) kept ∧
      List.Forall₂ (Intervention.BringsUp s.enhance) list (kept.map Prod.fst)

theorem selects_of_forall₂ {l : Learning} {s : Settings} {trigger : Trigger} {issues : List Issue}
    {list : List Intervention}
    (h : List.Forall₂ (Intervention.BringsUp s.enhance) list (select l s trigger issues)) :
    Selects l s trigger issues list := by
  constructor
  · rintro rfl
    exact h
  · intro hne
    rw [select, if_neg (by simpa using hne), limited, List.filter_filter] at h
    obtain ⟨kept, hkept, heq⟩ := exists_foremost
      (issues.filter fun i => s.frequency.allows i && l.shows i) s.maxSuggestions
    refine ⟨kept, ?_, heq ▸ h⟩
    simpa only [Bool.and_comm] using hkept

section Delivers

variable {e : Engine} {d : Document} {trigger : Trigger} {now : Instant} {moves : List Move}
  {list : List Intervention}

/-- **What a cycle delivers, whatever happens while it is in flight.** It brings up the issues that it
selects by the settings of its start, and each issue that it looks up is kept or left out by what has
been learned at that step. So an action or a reset between two lookups counts for the later one, and
for none before. -/
theorem bringsUp_of_delivers (hstart : (e.start d trigger now).1 = none)
    (h : (e.start d trigger now).2.Delivers d.path moves list) :
    List.Forall₂ (Intervention.BringsUp e.settings.enhance) list
      (selectBy e.settings trigger (Review.ofDocument d)
        ((e.start d trigger now).2.givensTo d.path moves)) := by
  obtain ⟨before, a, after, rfl, hlasts, hsettle⟩ := h
  obtain ⟨hlength, -⟩ := words_of_settle hstart hlasts hsettle
  rw [givensTo_append, selectBy_append _ _ _ (by rw [length_givensTo]; omega)]
  exact bringsUp_of_settle hstart hlasts hsettle

/-- What nobody asked for brings up only what was worth showing when it was looked up. -/
theorem lookedUp_of_delivers (hstart : (e.start d trigger now).1 = none)
    (htrigger : trigger ≠ .onDemand) (h : (e.start d trigger now).2.Delivers d.path moves list)
    {v : Intervention} (hv : v ∈ list) :
    ∃ before a rest i, moves = before ++ .goOn d.path a :: rest ∧
      (e.start d trigger now).2.Lasts d.path before ∧
      ((e.start d trigger now).2.run before).step? d.path = some (.lookUp i) ∧
      v.BringsUp e.settings.enhance i ∧
      ((e.start d trigger now).2.run before).store.learning.shows i = true := by
  obtain ⟨before, a, after, rfl, hlasts, hsettle⟩ := h
  obtain ⟨i, hi, hbrings⟩ :=
    exists_issue_of_bringsUp (bringsUp_of_settle hstart hlasts hsettle) hv
  rw [selectBy, if_neg (by simpa using htrigger)] at hi
  obtain ⟨k, g, hk, hg, hshows⟩ := mem_keptBy (mem_of_mem_limited hi)
  obtain ⟨early, b, rest, rfl, hlength, rfl⟩ := exists_goOn_of_mem_givensTo hg
  have hearly := (lasts_append.1 hlasts).1
  refine ⟨early, b, rest ++ .goOn d.path a :: after, i, by simp, hearly, ?_, hbrings, hshows⟩
  rw [step?, flight?_run (flight?_launch hstart) hearly, Option.map_some]
  exact congrArg some (Flight.next_of_lookups htrigger hlength hk)

/-- If its lookups come out as by `l`, a cycle brings up the issues that are selected by `l`. -/
theorem selectBy_of_looksUpIn {l : Learning} (hstart : (e.start d trigger now).1 = none)
    {before : List Move} (hlasts : (e.start d trigger now).2.Lasts d.path before)
    (hlength : lookups trigger (Review.ofDocument d) ≤ (answersTo d.path before).length)
    (hlookups : (e.start d trigger now).2.LooksUpIn d.path l before) :
    selectBy e.settings trigger (Review.ofDocument d)
        ((e.start d trigger now).2.givensTo d.path before) =
      select l e.settings trigger (Review.ofDocument d) :=
  (hlookups.looksUpIn (flight?_launch hstart) hlasts).selectBy_eq (by rwa [length_givensTo])

theorem bringsUp_of_looksUpIn {l : Learning} (hstart : (e.start d trigger now).1 = none)
    {before : List Move} (hlasts : (e.start d trigger now).2.Lasts d.path before)
    (hlookups : (e.start d trigger now).2.LooksUpIn d.path l before)
    (hsettle : (((e.start d trigger now).2.run before).settle d.path).1 = some list) :
    List.Forall₂ (Intervention.BringsUp e.settings.enhance) list
      (select l e.settings trigger (Review.ofDocument d)) := by
  obtain ⟨hlength, -⟩ := words_of_settle hstart hlasts hsettle
  rw [← selectBy_of_looksUpIn hstart hlasts (by omega) hlookups]
  exact bringsUp_of_settle hstart hlasts hsettle

/-- What is delivered is as if `l` had been learned all along. -/
theorem selects_of_delivers {l : Learning} (hstart : (e.start d trigger now).1 = none)
    (hlookups : (e.start d trigger now).2.LooksUpIn d.path l moves)
    (h : (e.start d trigger now).2.Delivers d.path moves list) :
    Selects l e.settings trigger (Review.ofDocument d) list := by
  obtain ⟨before, a, after, rfl, hlasts, hsettle⟩ := h
  exact selects_of_forall₂ (bringsUp_of_looksUpIn hstart hlasts hlookups.of_append hsettle)

/-- A cycle that nobody drops delivers once its lookups and its questions are done. -/
theorem exists_delivers_of_looksUpIn {l : Learning} (hstart : (e.start d trigger now).1 = none)
    (habort : .abort d.path ∉ moves)
    (hlookups : (e.start d trigger now).2.LooksUpIn d.path l moves)
    (hsteps : lookups trigger (Review.ofDocument d) +
      questions e.settings (select l e.settings trigger (Review.ofDocument d)) <
        (answersTo d.path moves).length) :
    ∃ list, (e.start d trigger now).2.Delivers d.path moves list := by
  refine exists_delivers_of_not_lasts habort fun hlasts => ?_
  have hmost := (lasts_start_iff hstart habort (by omega)).1 hlasts
  rw [selectBy_of_looksUpIn hstart hlasts (by omega) hlookups] at hmost
  omega

end Delivers

end Engine

end CodeCoach
