import CodeCoach.Proofs.Engine.Delivery
import CodeCoach.Session

/-!
# Requests and what they deliver

Where there is no gate before the enhancer, a request that is let through is one cycle on its own: it
takes its turns, rests when its steps are used up, and goes on until it delivers.

* `Rota.Sole`, a rota in which nobody but one cycle is about;
* `Rota.Took`, how a turn of that cycle may end, and `Rota.turn_sole`;
* `Rota.run_sole`: its turns end with its delivery;
* `Session.request_of_admitted`: a request does the moves of one cycle and delivers;
* `Session.request_selects`: which issues it brings up, and in what order.
-/

namespace CodeCoach

open Engine (Move)

/-- The answer to a step of a cycle, of which only a question needs one. -/
def Step.answer (enhancer : Enhancer) : Step → Answer
  | .ask q => enhancer q
  | _ => .ok ""

/-- Every step but the delivery keeps the cycle in flight. -/
theorem Engine.flight?_goOn_of_next_ne {e : Engine} {path : String} {f : Flight}
    (hf : e.flight? path = some f) (hn : f.next ≠ .deliver) (a : Answer) :
    ¬ e.Ends (.goOn path a) path ∧
      (e.goOn path a).flight? path = some (f.goOn ⟨e.store.learning, a⟩) := by
  constructor
  · simp [ends_iff hf, hn]
  · rw [flight?_goOn, if_pos rfl, hf]
    simp [hn]

namespace Rota

/-- What one uses at a time, as far as it is known. -/
def lockAt (r : Rota) (lock : Lock) : Gate CycleId := (r.locks.get? lock).getD .lock

/-- The cycle holds the lock that it needs next, and everything else is free. -/
def Holds (s : Session) (path : String) (e : Engine) (r : Rota) : Prop :=
  ∃ step lock, e.step? path = some step ∧ step.lock? s.earlier.length = some lock ∧
    r.lockAt lock = ⟨0, []⟩ ∧ ∀ other, other ≠ lock → r.lockAt other = .lock

/-- Nobody but the cycle of a path of the engine at work is about, and the engine is `e`. The cycle
has nothing in its hands, or it was let in to its next step before it rested. -/
structure Sole (s : Session) (path : String) (e : Engine) (r : Rota) : Prop where
  session : r.session = { s with engine := e }
  ready : r.ready = []
  resting : r.resting = []
  hands : (r.admitted = [] ∧ ∀ lock, r.lockAt lock = .lock) ∨
    (r.admitted = [s.cycle path] ∧ Holds s path e r)

variable {s : Session} {path : String} {e : Engine} {r : Rota} {step : Step}

theorem engineAt_cycle (h : r.session = { s with engine := e }) :
    r.session.engineAt (s.cycle path).engine = e := by
  simp [h, Session.engineAt, Session.cycle]

theorem setEngine_cycle (h : r.session = { s with engine := e }) (e' : Engine) :
    r.session.setEngine (s.cycle path).engine e' = { s with engine := e' } := by
  simp [h, Session.setEngine, Session.cycle]

theorem step?_of_sole (h : Sole s path e r) : r.step? (s.cycle path) = e.step? path := by
  rw [step?, engineAt_cycle h.session]
  rfl

theorem stepsLeft_of_sole (h : Sole s path e r) {f : Flight} (hf : e.flight? path = some f) :
    r.stepsLeft (s.cycle path) = f.stepsLeft := by
  rw [stepsLeft, engineAt_cycle h.session]
  simp [Engine.stepsLeft, Session.cycle, hf]

/-! ### One step -/

theorem deliver_of_settle (h : r.session = { s with engine := e }) {list : List Intervention}
    (hsettle : (e.settle path).1 = some list) :
    r.deliver (s.cycle path) =
      { r with
        session := { s with engine := (e.settle path).2 }
        ended := r.ended ++ [(s.cycle path, list)] } := by
  have hpair : e.settle path = (some list, (e.settle path).2) := Prod.ext hsettle rfl
  have hpath : (s.cycle path).path = path := rfl
  simp only [deliver, engineAt_cycle h, hpath, setEngine_cycle h]
  rw [hpair]

/-- A step does to the engine what the move of the cycle does. -/
theorem session_perform (h : r.session = { s with engine := e })
    (hstep : e.step? path = some step) :
    (r.perform (s.cycle path) step).session =
      { s with engine := e.goOn path (step.answer s.enhancer) } := by
  cases step with
  | lookUp i =>
    simp only [perform, updateEngine, Session.updateEngine, engineAt_cycle h, setEngine_cycle h,
      Engine.goOn, hstep]
    rfl
  | ask q =>
    have henhancer : r.session.enhancer = s.enhancer := by rw [h]
    simp only [perform, updateEngine, Session.updateEngine, engineAt_cycle h, setEngine_cycle h,
      henhancer, Engine.goOn, hstep]
    rfl
  | deliver =>
    obtain ⟨f, hf, hn⟩ := Option.map_eq_some_iff.1 hstep
    rw [perform, deliver_of_settle h (Engine.settle_fst_eq_some_iff.2 ⟨f, hf, hn, rfl⟩)]
    simp only [Engine.goOn, hstep]

theorem ended_perform (hstep : step ≠ .deliver) :
    (r.perform (s.cycle path) step).ended = r.ended := by
  cases step with
  | lookUp i => rfl
  | ask q => rfl
  | deliver => exact absurd rfl hstep

/-- A step touches nothing of the rota but the session and what has ended. -/
theorem perform_eq (r : Rota) (c : CycleId) (step : Step) :
    r.perform c step =
      { r with session := (r.perform c step).session, ended := (r.perform c step).ended } := by
  cases step with
  | lookUp i => rfl
  | ask q => rfl
  | deliver =>
    simp only [perform, deliver]
    split <;> rfl

theorem lockAt_set (r : Rota) (lock other : Lock) (g : Gate CycleId) :
    { r with locks := r.locks.set lock g }.lockAt other =
      if other = lock then g else r.lockAt other := by
  simp only [lockAt, Table.get?_set]
  split <;> rfl

/-- What the cycle needs for a step, it gets. -/
theorem enter_sole (h : Sole s path e r) (hstep : e.step? path = some step) {lock : Lock}
    (hlock : step.lock? s.earlier.length = some lock) :
    ∃ locks, r.enter (s.cycle path) step = (true, { r with admitted := [], locks := locks }) ∧
      { r with locks := locks }.lockAt lock = ⟨0, []⟩ ∧
      ∀ other, other ≠ lock → { r with locks := locks }.lockAt other = .lock := by
  rcases h.hands with ⟨hnone, hfree⟩ | ⟨hadmitted, step', lock', hstep', hlock', hheld, hother⟩
  · have hlock' : step.lock? (s.cycle path).engine = some lock := hlock
    have hgate : (r.locks.get? lock).getD .lock = .lock := hfree lock
    refine ⟨r.locks.set lock ⟨0, []⟩, ?_, ?_, ?_⟩
    · simp only [enter, hnone, List.contains_nil, Bool.false_eq_true, if_false, hlock', enterLock,
        hgate]
      rfl
    · rw [lockAt_set, if_pos rfl]
    · intro other hne
      rw [lockAt_set, if_neg hne, hfree]
  · obtain rfl : step = step' := Option.some.inj (hstep.symm.trans hstep')
    obtain rfl : lock = lock' := Option.some.inj (hlock.symm.trans hlock')
    exact ⟨r.locks, by simp [enter, hadmitted], hheld, hother⟩

/-- A lock that is given back is free, since nobody waits for it. -/
theorem leave_sole {lock : Lock} (hlock : step.lock? s.earlier.length = some lock)
    (hheld : r.lockAt lock = ⟨0, []⟩) (hother : ∀ other, other ≠ lock → r.lockAt other = .lock) :
    ∃ locks, r.leave s.earlier.length step = { r with locks := locks } ∧
      ∀ other, { r with locks := locks }.lockAt other = .lock := by
  have hgate : (r.locks.get? lock).getD .lock = ⟨0, []⟩ := hheld
  refine ⟨r.locks.set lock .lock, ?_, ?_⟩
  · simp only [leave, hlock, hgate, Gate.release, letIn]
    simp [Gate.lock]
  · intro other
    rw [lockAt_set]
    split
    · rfl
    · next hne => exact hother other hne

theorem isOpen_of_lock {lock : Lock} (hlock : step.lock? s.earlier.length = some lock) :
    r.isOpen (s.cycle path).engine step = false := by
  have hlock' : step.lock? (s.cycle path).engine = some lock := hlock
  simp [isOpen, hlock']

/-- A step under a lock brings the cycle one step on, with nothing in its hands. -/
theorem turn_of_lock (h : Sole s path e r) (hstep : e.step? path = some step) {lock : Lock}
    (hlock : step.lock? s.earlier.length = some lock) (count steps : Nat) :
    ∃ r', Sole s path (e.goOn path (step.answer s.enhancer)) r' ∧
      (step ≠ .deliver → r'.ended = r.ended) ∧
      (∀ list, step = .deliver → (e.settle path).1 = some list →
        r'.ended = r.ended ++ [(s.cycle path, list)]) ∧
      turn (s.cycle path) (count + 1) (steps + 1) r = turn (s.cycle path) count steps r' := by
  obtain ⟨locks, henter, hheld, hother⟩ := enter_sole h hstep hlock
  -- The rota with the lock in the hands of the cycle, and then after the step.
  let inside : Rota := { r with admitted := [], locks := locks }
  have hinside : inside.session = { s with engine := e } := h.session
  let done := inside.perform (s.cycle path) step
  have hdone : done = { inside with session := done.session, ended := done.ended } :=
    inside.perform_eq (s.cycle path) step
  have hlocks : ∀ lock, done.lockAt lock = { r with locks := locks }.lockAt lock := by
    intro lock
    rw [lockAt, hdone]
    rfl
  obtain ⟨locks', hleave, hfree⟩ := leave_sole (r := done) hlock (by rw [hlocks, hheld])
    (fun other hne => by rw [hlocks, hother other hne])
  refine ⟨{ done with locks := locks' },
    ⟨session_perform hinside hstep, ?_, ?_, Or.inl ⟨?_, hfree⟩⟩, ended_perform, ?_, ?_⟩
  · rw [hdone]
    exact h.ready
  · rw [hdone]
    exact h.resting
  · rw [hdone]
  · rintro list rfl hsettle
    exact congrArg Rota.ended (deliver_of_settle hinside hsettle)
  · rw [turn, step?_of_sole h, hstep]
    simp only [isOpen_of_lock hlock, Bool.false_eq_true, if_false, henter, Nat.add_one_ne_zero,
      beq_iff_eq, Nat.add_sub_cancel]
    exact congrArg (turn (s.cycle path) count steps) hleave

/-- Where there is no gate, a question is no reason to wait, and costs no step. -/
theorem turn_of_ask (h : Sole s path e r) (hgate : s.gate = none) {q : Question}
    (hstep : e.step? path = some (.ask q)) (count steps : Nat) :
    ∃ r', Sole s path (e.goOn path (s.enhancer q)) r' ∧ r'.ended = r.ended ∧
      turn (s.cycle path) (count + 1) steps r = turn (s.cycle path) count steps r' := by
  -- A cycle that has to ask holds nothing.
  have hhands : r.admitted = [] ∧ ∀ lock, r.lockAt lock = .lock := by
    refine h.hands.resolve_right ?_
    rintro ⟨-, step, lock, hstep', hlock, -⟩
    obtain rfl : Step.ask q = step := Option.some.inj (hstep.symm.trans hstep')
    cases hlock
  refine ⟨r.perform (s.cycle path) (.ask q),
    ⟨session_perform h.session hstep, h.ready, h.resting, Or.inl hhands⟩, rfl, ?_⟩
  have hopen : r.isOpen (s.cycle path).engine (.ask q) = true := by
    simp [isOpen, Step.lock?, h.session, hgate]
  rw [turn, step?_of_sole h, hstep]
  simp only [hopen, if_true]

/-- A cycle whose steps are used up rests with the lock that it needs next. -/
theorem turn_of_rest (h : Sole s path e r) (hstep : e.step? path = some step) {lock : Lock}
    (hlock : step.lock? s.earlier.length = some lock) (count : Nat) :
    ∃ r', Sole s path e { r' with resting := [] } ∧ r'.resting = [s.cycle path] ∧
      r'.ended = r.ended ∧ turn (s.cycle path) (count + 1) 0 r = r' := by
  obtain ⟨locks, henter, hheld, hother⟩ := enter_sole h hstep hlock
  refine ⟨{ r with admitted := [s.cycle path], locks := locks, resting := [s.cycle path] },
    ⟨h.session, h.ready, rfl, Or.inr ⟨rfl, step, lock, hstep, hlock, hheld, hother⟩⟩, rfl, rfl, ?_⟩
  rw [turn, step?_of_sole h, hstep]
  simp only [isOpen_of_lock hlock, Bool.false_eq_true, if_false, henter, beq_self_eq_true, if_true,
    rest, h.resting]

/-! ### Turns -/

/-- How a turn of the cycle ends, with the answers to the steps that it did: it has delivered, or it
rests, which it does not do before its first step. -/
inductive Took (s : Session) (path : String) (e : Engine) (steps : Nat) (r r' : Rota) : Prop
  | delivered (answers : List Answer) (list : List Intervention)
      (hdelivers : e.Delivers path (answers.map (.goOn path)) list)
      (hsole : Sole s path (e.run (answers.map (.goOn path))) r')
      (hended : r'.ended = r.ended ++ [(s.cycle path, list)])
  | rests (answers : List Answer)
      (hlasts : e.Lasts path (answers.map (.goOn path)))
      (hsole : Sole s path (e.run (answers.map (.goOn path))) { r' with resting := [] })
      (hresting : r'.resting = [s.cycle path])
      (hended : r'.ended = r.ended)
      (hsteps : 0 < steps → answers ≠ [])

/-- A turn goes on after a step that does not end the cycle. -/
theorem Took.cons {a : Answer} {steps steps' : Nat} {before final : Rota}
    (hends : ¬ e.Ends (.goOn path a) path) (hended : r.ended = before.ended)
    (h : Took s path (e.goOn path a) steps' r final) : Took s path e steps before final := by
  cases h with
  | delivered answers list hdelivers hsole hlater =>
    exact .delivered (a :: answers) list (hdelivers.cons hends) hsole (by rw [hlater, hended])
  | rests answers hlasts hsole hresting hlater _ =>
    exact .rests (a :: answers) ⟨hends, hlasts⟩ hsole hresting (hlater.trans hended)
      fun _ => List.cons_ne_nil _ _

/-- A cycle that has ended takes no turn. -/
theorem turn_of_ended (h : Sole s path e r) (hstep : e.step? path = none) (count steps : Nat) :
    turn (s.cycle path) count steps r = r := by
  cases count with
  | zero => rfl
  | succ count => rw [turn, step?_of_sole h, hstep]

/-- A turn in which nothing keeps the cycle from its steps. The induction is on the bound on their
number, to which each of them brings the cycle nearer. -/
theorem turn_sole (hgate : s.gate = none) {f : Flight} (h : Sole s path e r)
    (hf : e.flight? path = some f) {count : Nat} (hcount : f.stepsLeft ≤ count) (steps : Nat) :
    Took s path e steps r (turn (s.cycle path) count steps r) := by
  induction count generalizing e r f steps with
  | zero =>
    have := f.stepsLeft_pos
    omega
  | succ count ih =>
    have hstep : e.step? path = some f.next := by rw [Engine.step?, hf]; rfl
    have hnext : ∀ g, f.next ≠ .deliver → (f.goOn g).stepsLeft ≤ count := fun g hn => by
      have := Flight.stepsLeft_goOn hn g
      omega
    cases hlock : f.next.lock? s.earlier.length with
    | none =>
      cases hn : f.next with
      | lookUp i => simp [hn, Step.lock?] at hlock
      | deliver => simp [hn, Step.lock?] at hlock
      | ask q =>
        have hne : f.next ≠ .deliver := by simp [hn]
        obtain ⟨r', hsole, hended, hturn⟩ := turn_of_ask h hgate (hn ▸ hstep) count steps
        obtain ⟨hends, hflight⟩ := Engine.flight?_goOn_of_next_ne hf hne (s.enhancer q)
        rw [hturn]
        exact (ih hsole hflight (hnext _ hne) steps).cons hends hended
    | some lock =>
      cases steps with
      | zero =>
        obtain ⟨r', hsole, hresting, hended, hturn⟩ := turn_of_rest h hstep hlock count
        rw [hturn]
        exact .rests [] trivial hsole hresting hended (by simp)
      | succ steps =>
        obtain ⟨r', hsole, hquiet, hdeliver, hturn⟩ := turn_of_lock h hstep hlock count steps
        rw [hturn]
        by_cases hn : f.next = .deliver
        · -- The delivery is the last step.
          have hsettle := Engine.settle_fst_eq_some_iff.2 ⟨f, hf, hn, rfl⟩
          have hgone : (e.goOn path (f.next.answer s.enhancer)).step? path = none := by
            rw [Engine.step?, Engine.flight?_goOn, if_pos rfl, hf]
            simp [hn]
          rw [turn_of_ended hsole hgone]
          exact .delivered [f.next.answer s.enhancer] _ ⟨[], _, [], rfl, trivial, hsettle⟩ hsole
            (hdeliver _ hn hsettle)
        · obtain ⟨hends, hflight⟩ := Engine.flight?_goOn_of_next_ne hf hn (f.next.answer s.enhancer)
          exact (ih hsole hflight (hnext _ hn) steps).cons hends (hquiet hn)

/-- When nobody is about, nothing happens. -/
theorem run_of_nobody (hready : r.ready = []) (hresting : r.resting = []) (count pause : Nat) :
    run count pause r = r := by
  have hwake : r.wake = r := by
    cases r
    simp_all [wake]
  induction count generalizing pause with
  | zero => rfl
  | succ count ih =>
    have hnext : r.nextTurn = r := by simp [nextTurn, hready]
    simp only [run, hready, List.isEmpty_nil, Bool.true_or, if_true, hwake, hnext, ih]

/-- A cycle that rests comes back when nobody else is about. -/
theorem run_of_resting {c : CycleId} (hready : r.ready = []) (hresting : r.resting = [c])
    (count pause : Nat) :
    run (count + 1) pause r =
      run (count + 1) longestRest { r with ready := [.goOn c turnLength], resting := [] } := by
  simp [run, wake, hready, hresting, longestRest]

/-- One who is ready takes the next turn. -/
theorem run_of_ready (hready : r.ready = []) (hresting : r.resting = []) (c : CycleId)
    (steps count pause : Nat) :
    ∃ pause', run (count + 1) pause { r with ready := [.goOn c steps] } =
      run count pause' (turn c (r.stepsLeft c) steps r) := by
  have hturn : { r with ready := [.goOn c steps] }.nextTurn = turn c (r.stepsLeft c) steps r := by
    rw [nextTurn, ← hready]
    rfl
  have hwake : { r with ready := [.goOn c steps] }.wake = { r with ready := [.goOn c steps] } := by
    simp [wake, hresting]
  by_cases hpause : pause = 0
  · exact ⟨longestRest - 1, by simp [run, hpause, hwake, hturn]⟩
  · exact ⟨pause - 1, by simp [run, hpause, hturn]⟩

/-- The turns of the cycle end with its delivery. The induction is on their number: each of them
brings the cycle at least one step on. -/
theorem run_sole (hgate : s.gate = none) {f : Flight} (h : Sole s path e r)
    (hf : e.flight? path = some f) {steps count : Nat} (hsteps : 0 < steps)
    (hcount : f.stepsLeft ≤ count) (pause : Nat) :
    ∃ (answers : List Answer) (list : List Intervention),
      e.Delivers path (answers.map (.goOn path)) list ∧
      (run count pause { r with ready := [.goOn (s.cycle path) steps] }).session =
        { s with engine := e.run (answers.map (.goOn path)) } ∧
      (run count pause { r with ready := [.goOn (s.cycle path) steps] }).ended =
        r.ended ++ [(s.cycle path, list)] := by
  induction count generalizing e r f steps pause with
  | zero =>
    have := f.stepsLeft_pos
    omega
  | succ count ih =>
    obtain ⟨pause', hone⟩ := run_of_ready h.ready h.resting (s.cycle path) steps count pause
    rw [hone, stepsLeft_of_sole h hf]
    have htook := turn_sole hgate h hf (Nat.le_refl _) steps
    generalize turn (s.cycle path) f.stepsLeft steps r = final at htook ⊢
    cases htook with
    | delivered answers list hdelivers hsole hended =>
      rw [run_of_nobody hsole.ready hsole.resting]
      exact ⟨answers, list, hdelivers, hsole.session, hended⟩
    | rests answers hlasts hsole hresting hended hprogress =>
      have hflight := Engine.flight?_run hf hlasts
      have hfewer := Engine.stepsLeft_run hf hlasts
      have hpos := List.length_pos_iff.2 (hprogress hsteps)
      rw [Engine.answersTo_map_goOn] at hfewer
      have hleft' := (f.run (e.givensTo path (answers.map (.goOn path)))).stepsLeft_pos
      have hturn : 0 < turnLength := by decide
      obtain ⟨count, rfl⟩ : ∃ k, count = k + 1 := ⟨count - 1, by omega⟩
      obtain ⟨more, list, hdelivers, hsession, hlater⟩ :=
        ih hsole hflight hturn (by omega) longestRest
      have hready : final.ready = [] := hsole.ready
      rw [run_of_resting hready hresting]
      refine ⟨answers ++ more, list, ?_, ?_, ?_⟩
      · rw [List.map_append]
        exact hdelivers.of_lasts hlasts
      · rw [List.map_append, Engine.run_append]
        exact hsession
      · rw [← hended]
        exact hlater

end Rota

namespace Session

/-- A request that is let through takes the turns of its cycle. -/
theorem request_of_start {s : Session} {d : Document} {trigger : Trigger} {now : Instant}
    {begun : Engine} (h : s.engine.start d trigger now = (none, begun)) :
    s.request d trigger now =
      ((({ s with engine := begun } : Session).takeTurns [.goOn (s.cycle d.path) firstTurn]
          []).1.head?.map fun e => .delivered e.2,
        (({ s with engine := begun } : Session).takeTurns [.goOn (s.cycle d.path) firstTurn]
          []).2) := by
  rw [request, h]
  rfl

/-- Where there is no gate, a request that is let through does the steps of one cycle and
delivers. -/
theorem request_of_admitted {s : Session} (hgate : s.gate = none) {d : Document} {trigger : Trigger}
    {now : Instant} (h : (s.engine.start d trigger now).1 = none) :
    ∃ (answers : List Answer) (list : List Intervention),
      (s.engine.start d trigger now).2.Delivers d.path (answers.map (.goOn d.path)) list ∧
        s.request d trigger now =
          (some (.delivered list),
            { s with
              engine := (s.engine.start d trigger now).2.run (answers.map (.goOn d.path)) }) := by
  obtain ⟨begun, hbegun⟩ : ∃ begun, s.engine.start d trigger now = (none, begun) :=
    ⟨_, Prod.ext h rfl⟩
  have hf : begun.flight? d.path = some (s.engine.launch d trigger) := by
    have := Engine.flight?_launch h
    rwa [hbegun] at this
  let first := Rota.ofTurns { s with engine := begun } [] []
  have hsole : Rota.Sole s d.path begun first :=
    ⟨rfl, rfl, rfl, Or.inl ⟨rfl, fun lock => rfl⟩⟩
  have hturn : 0 < firstTurn := by decide
  have hcount : (s.engine.launch d trigger).stepsLeft ≤
      { first with ready := [.goOn (s.cycle d.path) firstTurn] }.turnsLeft := by
    have hleft := Rota.stepsLeft_of_sole hsole hf
    show _ ≤ 0 + (first.stepsLeft (s.cycle d.path) + 1)
    omega
  obtain ⟨answers, list, hdelivers, hsession, hended⟩ :=
    Rota.run_sole hgate hsole hf hturn hcount longestRest
  refine ⟨answers, list, ?_, ?_⟩
  · rw [hbegun]
    exact hdelivers
  · have hturns : ({ s with engine := begun } : Session).takeTurns
        [.goOn (s.cycle d.path) firstTurn] [] =
          ([(s.cycle d.path, list)], { s with engine := begun.run (answers.map (.goOn d.path)) }) :=
      Prod.ext hended hsession
    rw [request_of_start hbegun, hturns, hbegun]
    rfl

/-- **What a request brings up.** A request that is let through begins a cycle that delivers when it
has done its steps, and at once where there is no gate. On demand, it brings up the issues that the
frequency allows, in the order of the review. Otherwise it brings up the foremost of those of them
that are worth showing by what had been learned at the start, if the lookups come out that way, which
is so if nothing else happens before the delivery. -/
theorem request_selects (s : Session) (d : Document) (trigger : Trigger) (now : Instant)
    (h : (s.engine.start d trigger now).1 = none) :
    let l := s.engine.store.learning
    let selects := Engine.Selects l s.engine.settings trigger (Review.ofDocument d)
    let begun := (s.engine.start d trigger now).2
    (∀ answers : List Answer,
      lookups trigger (Review.ofDocument d) +
          questions s.engine.settings (select l s.engine.settings trigger (Review.ofDocument d)) <
        answers.length →
      ∃ list, begun.Delivers d.path (answers.map (.goOn d.path)) list) ∧
    (∀ answers : List Answer, begun.LooksUpIn d.path l (answers.map (.goOn d.path))) ∧
    (∀ moves list, begun.LooksUpIn d.path l moves → begun.Delivers d.path moves list →
      selects list) ∧
    (s.gate = none →
      ∃ list, (s.request d trigger now).1 = some (.delivered list) ∧ selects list) := by
  intro l selects begun
  have halone : ∀ answers : List Answer, begun.LooksUpIn d.path l (answers.map (.goOn d.path)) := by
    intro answers
    have hlookups := begun.looksUpIn_map_goOn d.path answers
    rwa [s.engine.store_start d trigger now] at hlookups
  have hselects : ∀ moves list, begun.LooksUpIn d.path l moves → begun.Delivers d.path moves list →
      selects list := fun moves list => Engine.selects_of_delivers h
  refine ⟨?_, halone, hselects, ?_⟩
  · intro answers hsteps
    refine Engine.exists_delivers_of_looksUpIn h (by simp) (halone answers) ?_
    rw [Engine.answersTo_map_goOn]
    exact hsteps
  · intro hgate
    obtain ⟨answers, list, hdelivers, hrequest⟩ := request_of_admitted hgate h
    exact ⟨list, congrArg Prod.fst hrequest, hselects _ list (halone answers) hdelivers⟩

/-- A review of two markers on demand brings up both of them. -/
theorem request_selects_markers :
    let d : Document := ⟨"// TODO: x\n// FIXME: y", "text", "a.txt"⟩
    let ids := fun n => String.ofList (List.replicate n 'x')
    let s := ofEngine (.fresh { Settings.default with maxSuggestions := 1 }
      (.fresh ⟨.empty [], .memory .empty .none⟩) ids ⟨0, 0⟩) .identity none
    (s.engine.start d .onDemand ⟨0, 0⟩).1 = none ∧
    ∃ list, (s.request d .onDemand ⟨0, 0⟩).1 = some (.delivered list) ∧ list.length = 2 := by
  intro d ids s
  have hstart : (s.engine.start d .onDemand ⟨0, 0⟩).1 = none := by decide +kernel
  obtain ⟨list, hlist, hselects⟩ := (request_selects s d .onDemand ⟨0, 0⟩ hstart).2.2.2 rfl
  refine ⟨hstart, list, hlist, ?_⟩
  rw [(hselects.onDemand rfl).length_eq]
  decide +kernel

end Session

end CodeCoach
