import CodeCoach.Proofs.Session.Request

/-!
# Reviews on demand and the review behind a cooldown

An engine keeps a cooldown of its own and reviews documents itself.  Where it brings up everything
it finds and asks no enhancer, it does the same as a review behind a cooldown.

* `Session.visits`, `RatedReview.visits`, reviews of documents at given times, one after another;
* `Session.request_of_deliver`: a cycle with nothing to ask delivers at once, whatever stands before
  the enhancer;
* `Session.InStep`, a session and a review behind a cooldown that let the same documents through,
  and `InStep.request`: one review keeps them so;
* `Session.visits_agree`: all reviews have the same outcome.
-/

namespace CodeCoach

/-- Reviews documents at given times, one after another. -/
def RatedReview.visits (r : RatedReview) : List (Document × Instant) → List (Option (List Issue))
  | [] => []
  | (d, now) :: rest => (r.review d now).1 :: (r.review d now).2.visits rest

/-- The outcome of a cycle is that of a review: both wait for the document to cool down, or the
cycle brings up what the review finds. -/
inductive Outcome.Agrees : Option Outcome → Option (List Issue) → Prop
  | coolingDown : Agrees (some (.refused .coolingDown)) none
  | delivered {list : List Intervention} {issues : List Issue}
      (h : list.map Intervention.context = issues.map Issue.context) :
      Agrees (some (.delivered list)) (some issues)

namespace Session

/-- Requests reviews of documents at given times, one after another. -/
def visits (s : Session) : List (Document × Instant) → List (Option Outcome)
  | [] => []
  | (d, now) :: rest => (s.request d .onDemand now).1 :: (s.request d .onDemand now).2.visits rest

/-! ### One request -/

/-- A cycle that has nothing to look up or to ask delivers in its first turn. -/
theorem request_of_deliver {s : Session} {d : Document} {trigger : Trigger} {now : Instant}
    (hstart : (s.engine.start d trigger now).1 = none)
    (hnext : (s.engine.launch d trigger).next = .deliver) :
    let begun := (s.engine.start d trigger now).2
    s.request d trigger now =
      (some (.delivered (begun.deliver (s.engine.launch d trigger)).1),
        { s with engine := (begun.deliver (s.engine.launch d trigger)).2 }) := by
  intro begun
  have hf : begun.flight? d.path = some (s.engine.launch d trigger) := Engine.flight?_launch hstart
  have hsettle : begun.settle d.path =
      (some (begun.deliver (s.engine.launch d trigger)).1,
        (begun.deliver (s.engine.launch d trigger)).2) := by
    simp [Engine.settle, hf, hnext]
  have hstep : begun.step? d.path = some .deliver := by
    rw [Engine.step?, hf, Option.map_some, hnext]
  have hleft : (s.engine.launch d trigger).stepsLeft = 1 :=
    (Flight.next_eq_deliver_iff _).1 hnext
  let first := Rota.ofTurns { s with engine := begun } [] []
  have hsole : Rota.Sole s d.path begun first := ⟨rfl, rfl, rfl, Or.inl ⟨rfl, fun lock => rfl⟩⟩
  -- There is one turn, of which the delivery is the first and only step.
  obtain ⟨pause, hrun⟩ := Rota.run_of_ready hsole.ready hsole.resting (s.cycle d.path) firstTurn 1
    longestRest
  have hlock : Step.deliver.lock? s.earlier.length = some (.interventions s.earlier.length) := rfl
  obtain ⟨final, hfinal, -, hended, hturn⟩ := Rota.turn_of_lock hsole hstep hlock 0 (firstTurn - 1)
  have hended := hended _ rfl (congrArg Prod.fst hsettle)
  have hsession : final.session =
      { s with engine := (begun.deliver (s.engine.launch d trigger)).2 } := by
    rw [hfinal.session, Engine.goOn, hstep]
    simp only [hsettle]
  have hturns : ({ s with engine := begun } : Session).takeTurns
      [.goOn (s.cycle d.path) firstTurn] [] = (final.ended, final.session) := by
    have hcount : { first with ready := [.goOn (s.cycle d.path) firstTurn] }.turnsLeft = 1 + 1 := by
      show 0 + (first.stepsLeft (s.cycle d.path) + 1) = _
      rw [Rota.stepsLeft_of_sole hsole hf, hleft]
    have hfirst : Rota.ofTurns { s with engine := begun } [.goOn (s.cycle d.path) firstTurn] [] =
        { first with ready := [.goOn (s.cycle d.path) firstTurn] } := rfl
    simp only [takeTurns, hfirst, hcount, hrun]
    rw [Rota.stepsLeft_of_sole hsole hf, hleft]
    have hturn : Rota.turn (s.cycle d.path) 1 firstTurn first = final := hturn
    rw [hturn, Rota.run_of_nobody hfinal.ready hfinal.resting]
  rw [request_of_start (Prod.ext hstart rfl), hturns, hended, hsession]
  rfl

/-! ### In step with a cooldown -/

/-- No cycle of the session is in flight, it brings up all it finds without asking anybody, and it
goes by the cooldown of the review. -/
structure InStep (s : Session) (r : RatedReview) : Prop where
  flights : s.engine.flights = []
  frequency : s.engine.settings.frequency = .unrestricted
  enhance : s.engine.settings.enhance = false
  cooldown : s.engine.cooldown.setWindow s.engine.settings.cooldownSeconds = r.cooldown

section InStep

variable {s : Session} {r : RatedReview}

theorem InStep.launch (h : InStep s r) (d : Document) :
    (s.engine.launch d .onDemand).ready = (Review.ofDocument d).map Issue.context ∧
      (s.engine.launch d .onDemand).next = .deliver := by
  have hall : (Review.ofDocument d).filter s.engine.settings.frequency.allows =
      Review.ofDocument d := by
    rw [h.frequency]
    exact List.filter_eq_self.2 fun i _ => rfl
  have hstage : Stage.ofIssues s.engine.settings .onDemand (Review.ofDocument d) =
      .responding ((Review.ofDocument d).map Issue.context) [] := by
    rw [Stage.ofIssues, if_pos (beq_self_eq_true _), hall, Stage.bringUp, h.enhance]
    rfl
  simp only [Engine.launch, hstage, Flight.ready, Flight.next, and_self]

/-- One review has the same outcome in both, and leaves them in step. -/
theorem InStep.request (h : InStep s r) (d : Document) (now : Instant) :
    Outcome.Agrees (s.request d .onDemand now).1 (r.review d now).1 ∧
      InStep (s.request d .onDemand now).2 (r.review d now).2 := by
  have hcooldown := h.cooldown
  cases s.engine.requested d .onDemand now with
  | disabled _ hoff => exact absurd rfl hoff.1
  | busy _ _ hflight => simp [Engine.flight?, h.flights] at hflight
  | coolingDown heq _ _ hleft =>
    have hrequest : s.request d .onDemand now = (some (.refused .coolingDown),
        { s with engine := { s.engine with cooldown := r.cooldown } }) := by
      rw [← hcooldown, Session.request, heq]
    have hreview : r.review d now = (none, r) := by
      rw [RatedReview.review, Cooldown.tryBegin_of_remaining (hcooldown ▸ hleft)]
      rfl
    rw [hrequest, hreview]
    refine ⟨.coolingDown, h.flights, h.frequency, h.enhance, ?_⟩
    -- The window of the review is already that of the settings.
    rw [← hcooldown]
    rfl
  | admitted heq _ _ hleft =>
    obtain ⟨hready, hnext⟩ := h.launch d
    have hreview : r.review d now =
        (some (Review.ofDocument d), ⟨r.cooldown.record d.path now⟩) := by
      rw [hcooldown] at hleft
      simp [RatedReview.review, Cooldown.tryBegin, hleft]
    rw [request_of_deliver (congrArg Prod.fst heq) hnext, hreview, heq]
    refine ⟨.delivered ?_, ?_, h.frequency, h.enhance, ?_⟩
    · rw [← hready]
      exact Flight.map_context_interventions _ _ _ _
    · -- The only flight is that of the document, which has delivered.
      simp [Engine.deliver, Engine.publish, Engine.dropFlight, h.flights]
    · rw [← hcooldown]
      rfl

theorem InStep.visits (h : InStep s r) (visits : List (Document × Instant)) :
    List.Forall₂ Outcome.Agrees (s.visits visits) (r.visits visits) := by
  induction visits generalizing s r with
  | nil => exact .nil
  | cons visit visits ih =>
    obtain ⟨hagrees, hnext⟩ := h.request visit.1 visit.2
    exact .cons hagrees (ih hnext)

end InStep

/-- **Reviews on demand are reviews behind a cooldown.** A session whose engine has let nothing
through yet, brings up everything and asks no enhancer is requested to review documents on demand,
at any times.  A request has to wait for the document to cool down exactly where a review behind a
new cooldown of the same length gives nothing; otherwise it brings up what that review finds, in the
same order. -/
theorem visits_agree {s : Session} (hflights : s.engine.flights = [])
    (hpasses : s.engine.cooldown.passes = .empty)
    (hfrequency : s.engine.settings.frequency = .unrestricted)
    (henhance : s.engine.settings.enhance = false) (visits : List (Document × Instant)) :
    List.Forall₂ Outcome.Agrees (s.visits visits)
      ((RatedReview.ofSeconds s.engine.settings.cooldownSeconds).visits visits) := by
  refine InStep.visits ⟨hflights, hfrequency, henhance, ?_⟩ visits
  rw [Cooldown.setWindow, hpasses]
  rfl

/-- Of three reviews of one document the second one comes too early, since its clock is behind. -/
theorem visits_agree_clockBehind :
    let d : Document := ⟨"// TODO: x", "text", "a.txt"⟩
    let s := ofEngine (.fresh
      { Settings.default with frequency := .unrestricted, enhance := false, cooldownSeconds := 5 }
      (.fresh ⟨.empty [], .memory .empty .none⟩) (fun _ => "x") ⟨0, 0⟩) .identity (some .empty)
    let visits := [(d, ⟨9, 0⟩), (d, ⟨3, 0⟩), (d, ⟨14, 0⟩)]
    (s.visits visits).map (Option.map Outcome.name) =
        [some "delivered", some "cooling-down", some "delivered"] ∧
      List.Forall₂ Outcome.Agrees (s.visits visits) ((RatedReview.ofSeconds 5).visits visits) := by
  intro d s visits
  exact ⟨by decide +kernel, visits_agree rfl rfl rfl rfl visits⟩

end Session

end CodeCoach
