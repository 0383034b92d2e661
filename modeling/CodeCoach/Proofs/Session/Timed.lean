import CodeCoach.Proofs.Debounce
import CodeCoach.Proofs.Session.Turns

/-!
# The latest version of a document is reviewed

Documents are changed, written and saved while time passes. A document that is left alone is reviewed
once, as it was last.

* `Session.Asking`, a cycle that is asked for because its document was left alone, with
  `Session.askedAsleep`, all that are asked for while time passes;
* `Session.Notice`, what a session is told, `Session.after`, `Session.run`, `Session.askedIn`;
* `Session.stepsOf`, what a run is to the timers, and `askedIn_perm`: the cycles that are asked for
  are the actions that begin;
* `Session.reviews_latest`, what that means to the documents.
-/

namespace CodeCoach

/-- A request that nobody made is refused as disabled if the coach is not to act on its own. -/
theorem Engine.start_eq_disabled_iff {e : Engine} {d : Document} {trigger : Trigger}
    {now : Instant} :
    (e.start d trigger now).1 = some .disabled ↔
      trigger ≠ .onDemand ∧ e.settings.proactive = false := by
  cases e.requested d trigger now with
  | disabled heq hoff => simp [heq, hoff]
  | busy heq hon _ => simpa [heq] using hon
  | coolingDown heq hon _ _ => simpa [heq] using hon
  | admitted heq hon _ _ => simpa [heq] using hon

namespace Session

/-! ### What is asked for -/

/-- A cycle that is asked for because its time has come, and the engine that is asked. -/
structure Asking where
  waiting : Waiting Awaiting
  engine : Engine

/-- The answer, and the engine after it. -/
def Asking.start (a : Asking) : Option Refusal × Engine :=
  a.engine.start a.waiting.action.document a.waiting.action.trigger a.engine.clock

/-- What is asked for when cycles are started in order. Each finds the engine as the ones before
have left it. -/
def asked (s : Session) : List Due → List Asking
  | [] => []
  | due :: rest => ⟨due.2, s.engineAt due.1⟩ :: asked (s.beginCycle due).2 rest

/-- What is asked for when cycles are run that begin at several times. -/
def askedInTurn (s : Session) : List (List Due) → List Asking
  | [] => []
  | dues :: groups => s.asked dues ++ (s.runTogether dues).askedInTurn groups

/-- What is asked for while time passes. -/
def askedAsleep (s : Session) (ms : Nat) : List Asking :=
  (s.advance ms).2.askedInTurn ((s.advance ms).1.splitBy fun a b => a.2.due == b.2.due)

theorem map_waiting_asked (s : Session) (dues : List Due) :
    (s.asked dues).map Asking.waiting = dues.map Prod.snd := by
  induction dues generalizing s with
  | nil => rfl
  | cons due rest ih => simp [asked, ih]

theorem map_waiting_askedInTurn (s : Session) (groups : List (List Due)) :
    (s.askedInTurn groups).map Asking.waiting = groups.flatten.map Prod.snd := by
  induction groups generalizing s with
  | nil => rfl
  | cons dues groups ih => simp [askedInTurn, map_waiting_asked, ih]

/-- Who is asked has done nothing since but start the cycles before. -/
theorem undisturbed_of_mem_asked {s : Session} (h : s.earlier = []) {dues : List Due} {a : Asking}
    (ha : a ∈ s.asked dues) :
    ∃ before due after s', dues = before ++ due :: after ∧ a = ⟨due.2, s'.engine⟩ ∧
      Undisturbed (before.map Due.path) s s' := by
  induction dues generalizing s with
  | nil => cases ha
  | cons due rest ih =>
    rcases List.mem_cons.1 ha with rfl | ha
    · exact ⟨[], due, rest, s, rfl, by rw [engineAt_of_alone h], .refl h⟩
    · have hbegun := undisturbed_beginCycle h due
      obtain ⟨before, other, after, s', rfl, rfl, hlater⟩ := ih hbegun.alone ha
      exact ⟨due :: before, other, after, s', rfl, rfl, hbegun.trans hlater⟩

theorem undisturbed_of_mem_askedInTurn {s : Session} (h : s.earlier = [])
    {groups : List (List Due)} {a : Asking} (ha : a ∈ s.askedInTurn groups) :
    ∃ before due after s', groups.flatten = before ++ due :: after ∧ a = ⟨due.2, s'.engine⟩ ∧
      Undisturbed (before.map Due.path) s s' := by
  induction groups generalizing s with
  | nil => cases ha
  | cons dues groups ih =>
    rw [List.flatten_cons]
    rcases List.mem_append.1 ha with ha | ha
    · obtain ⟨before, due, after, s', rfl, rfl, hbefore⟩ := undisturbed_of_mem_asked h ha
      exact ⟨before, due, after ++ groups.flatten, s', by simp, rfl, hbefore⟩
    · have hfirst := undisturbed_runTogether h dues
      obtain ⟨before, due, after, s', heq, rfl, hlater⟩ := ih hfirst.alone ha
      refine ⟨dues ++ before, due, after, s', by rw [heq, List.append_assoc], rfl, ?_⟩
      rw [List.map_append]
      exact hfirst.trans hlater

theorem map_waiting_askedAsleep {s : Session} (h : s.earlier = []) (ms : Nat) :
    ((s.askedAsleep ms).map Asking.waiting).Perm (s.engine.timers.advance ms).1 := by
  rw [askedAsleep, map_waiting_askedInTurn, List.flatten_splitBy]
  exact (advance_of_alone h ms).1

/-- Who is asked has the settings as they are, and if no cycle was in flight and no path is asked
for twice, the path is free. -/
theorem of_mem_askedAsleep {s : Session} (h : s.earlier = []) {ms : Nat} {a : Asking}
    (ha : a ∈ s.askedAsleep ms) :
    a.engine.settings = s.engine.settings ∧
      (s.engine.flights = [] →
        ((s.engine.timers.advance ms).1.map fun w => w.action.document.path).Nodup →
        a.engine.flight? a.waiting.action.document.path = none) := by
  obtain ⟨hperm, hadvance⟩ := advance_of_alone h ms
  have halone : (s.advance ms).2.earlier = [] := by rw [hadvance, h]
  obtain ⟨before, due, after, s', hsplit, rfl, hbefore⟩ :=
    undisturbed_of_mem_askedInTurn halone ha
  rw [List.flatten_splitBy] at hsplit
  refine ⟨hbefore.settings.trans (by rw [hadvance]), fun hflights hnodup => ?_⟩
  have hpaths : ((before ++ due :: after).map Due.path).Nodup := by
    have := (hperm.map fun w => w.action.document.path).nodup_iff.2 hnodup
    rwa [List.map_map, hsplit] at this
  rw [List.map_append, List.map_cons] at hpaths
  refine hbefore.free _ (fun hmem => ?_) (by simp [hadvance, Engine.flight?, hflights])
  exact (List.nodup_append'.1 hpaths).2.2 hmem List.mem_cons_self

/-! ### Runs -/

/-- What a call for a review is to the timers. -/
def callStep (σ : Settings) (d : Document) (trigger : Trigger) : Debouncer.Step Awaiting :=
  if σ.proactive then .schedule d.path σ.debounceMillis ⟨d, trigger⟩ else .elapse 0

theorem time_callStep (σ : Settings) (d : Document) (trigger : Trigger) :
    (callStep σ d trigger).time = 0 := by
  unfold callStep
  split <;> rfl

theorem touches_callStep (σ : Settings) (d : Document) (trigger : Trigger) (path : String) :
    (callStep σ d trigger).touches path = (σ.proactive && path == d.path) := by
  unfold callStep
  cases σ.proactive <;> rfl

theorem callStep_eq_schedule_iff {σ : Settings} {d : Document} {trigger : Trigger} {key : String}
    {delay : Nat} {action : Awaiting} :
    callStep σ d trigger = .schedule key delay action ↔
      σ.proactive = true ∧ d.path = key ∧ σ.debounceMillis = delay ∧ ⟨d, trigger⟩ = action := by
  unfold callStep
  cases σ.proactive <;> simp

/-- Letting a document wait is that step, and touches nothing but the timers. -/
theorem schedule_eq (e : Engine) (d : Document) (trigger : Trigger) :
    e.schedule d trigger =
      { e with timers := e.timers.apply (callStep e.settings d trigger) } := by
  unfold Engine.schedule callStep
  split <;> rfl

/-- What a session is told, of documents and otherwise. -/
inductive Notice
  | changed (d : Document)
  /-- A document was written by somebody else. -/
  | written (d : Document)
  | saved (d : Document)
  | reset
  | configure (settings : Settings)
  | tick (clock : Instant)
  | pass (ms : Nat)

namespace Notice

/-- The time that passes. -/
def time : Notice → Nat
  | pass ms => ms
  | _ => 0

/-- The settings from then on. -/
def settings (σ : Settings) : Notice → Settings
  | configure settings => settings
  | _ => σ

/-- The document that is to be reviewed when it is left alone, with the trigger. -/
def call? : Notice → Option (Document × Trigger)
  | changed d => some (d, .change)
  | written d => some (d, .save)
  | _ => none

/-- Whether a review of the path that waits is not to begin: there is a newer version, the document
was saved, or all is forgotten. What comes while the coach is not to act on its own is not heard. -/
def supersedes (σ : Settings) (path : String) : Notice → Bool
  | changed d => σ.proactive && path == d.path
  | written d => σ.proactive && path == d.path
  | saved d => path == d.path
  | reset => true
  | _ => false

/-- What the notice is to the timers. -/
def step (σ : Settings) : Notice → Debouncer.Step Awaiting
  | changed d => callStep σ d .change
  | written d => callStep σ d .save
  | saved d => .cancel d.path
  | reset => .cancelAll
  | configure _ => .elapse 0
  | tick _ => .elapse 0
  | pass ms => .elapse ms

theorem time_step (σ : Settings) (n : Notice) : (n.step σ).time = n.time := by
  cases n with
  | changed d => exact time_callStep σ d .change
  | written d => exact time_callStep σ d .save
  | _ => rfl

theorem touches_step (σ : Settings) (path : String) (n : Notice) :
    (n.step σ).touches path = n.supersedes σ path := by
  cases n with
  | changed d => exact touches_callStep σ d .change path
  | written d => exact touches_callStep σ d .save path
  | _ => rfl

theorem trigger_ne_of_call? {n : Notice} {d : Document} {trigger : Trigger}
    (h : n.call? = some (d, trigger)) : trigger ≠ .onDemand := by
  rintro rfl
  cases n <;> simp [call?] at h

/-- Only a call for a review schedules one. -/
theorem step_eq_schedule_iff {σ : Settings} {n : Notice} {key : String} {delay : Nat}
    {action : Awaiting} :
    n.step σ = .schedule key delay action ↔ ∃ d trigger, n.call? = some (d, trigger) ∧
      σ.proactive = true ∧ d.path = key ∧ σ.debounceMillis = delay ∧ ⟨d, trigger⟩ = action := by
  cases n with
  | changed d => simp [step, call?, callStep_eq_schedule_iff]
  | written d => simp [step, call?, callStep_eq_schedule_iff]
  | _ => simp [step, call?]

end Notice

/-- Does what a notice is about. No time passes yet. -/
def tell (s : Session) : Notice → Session
  | .changed d => { s with engine := s.engine.schedule d .change }
  | .written d => { s with engine := s.engine.schedule d .save }
  | .saved d => (s.save d).2
  | .reset => { s with engine := s.engine.reset }
  | .configure settings => { s with engine := { s.engine with settings := settings } }
  | .tick clock => { s with engine := { s.engine with clock := clock } }
  | .pass _ => s

/-- The session after a notice, when all that is due has begun. -/
def after (s : Session) (n : Notice) : Session := (s.tell n).sleep n.time

/-- The session after notices. -/
def run (s : Session) (notices : List Notice) : Session := notices.foldl after s

@[simp] theorem run_nil (s : Session) : s.run [] = s := rfl

@[simp] theorem run_cons (s : Session) (n : Notice) (notices : List Notice) :
    s.run (n :: notices) = (s.after n).run notices := rfl

/-- The cycles that a notice makes due. -/
def askedAt (s : Session) (n : Notice) : List Asking := (s.tell n).askedAsleep n.time

/-- The cycles that become due in the course of notices. -/
def askedIn (s : Session) : List Notice → List Asking
  | [] => []
  | n :: notices => s.askedAt n ++ (s.after n).askedIn notices

theorem askedIn_append (s : Session) (notices more : List Notice) :
    s.askedIn (notices ++ more) = s.askedIn notices ++ (s.run notices).askedIn more := by
  induction notices generalizing s with
  | nil => rfl
  | cons n notices ih => simp [askedIn, ih]

theorem mem_askedIn_of_askedAt {s : Session} {notices : List Notice} {n : Notice} {a : Asking}
    (ha : a ∈ (s.run notices).askedAt n) : a ∈ s.askedIn (notices ++ [n]) := by
  rw [askedIn_append]
  exact List.mem_append_right _ (List.mem_append_left _ ha)

/-! ### What a run is to the timers -/

/-- The settings after notices. -/
def inForce (σ : Settings) (notices : List Notice) : Settings := notices.foldl Notice.settings σ

/-- The time that passes in the course of notices. -/
def elapsed (notices : List Notice) : Nat := (notices.map Notice.time).sum

/-- What notices are to the timers. -/
def stepsOf (σ : Settings) : List Notice → List (Debouncer.Step Awaiting)
  | [] => []
  | n :: notices => n.step σ :: stepsOf (n.settings σ) notices

theorem inForce_append (σ : Settings) (notices more : List Notice) :
    inForce σ (notices ++ more) = inForce (inForce σ notices) more := List.foldl_append

theorem elapsed_stepsOf (σ : Settings) (notices : List Notice) :
    Debouncer.elapsed (stepsOf σ notices) = elapsed notices := by
  induction notices generalizing σ with
  | nil => rfl
  | cons n notices ih =>
    rw [stepsOf, Debouncer.elapsed_cons, ih, Notice.time_step, elapsed, elapsed, List.map_cons,
      List.sum_cons]

theorem stepsOf_append (σ : Settings) (notices more : List Notice) :
    stepsOf σ (notices ++ more) = stepsOf σ notices ++ stepsOf (inForce σ notices) more := by
  induction notices generalizing σ with
  | nil => rfl
  | cons n notices ih =>
    rw [List.cons_append, stepsOf, ih, stepsOf, List.cons_append]
    rfl

/-- A step is that of a notice, with the settings that are in force there. -/
theorem exists_of_stepsOf_eq {σ : Settings} {notices : List Notice}
    {steps later : List (Debouncer.Step Awaiting)} {x : Debouncer.Step Awaiting}
    (h : stepsOf σ notices = steps ++ x :: later) :
    ∃ before n after, notices = before ++ n :: after ∧ steps = stepsOf σ before ∧
      x = n.step (inForce σ before) ∧ later = stepsOf (inForce σ (before ++ [n])) after := by
  induction notices generalizing σ steps with
  | nil => simp [stepsOf] at h
  | cons n notices ih =>
    rw [stepsOf] at h
    cases steps with
    | nil =>
      obtain ⟨rfl, rfl⟩ := List.cons.inj h
      exact ⟨[], n, notices, rfl, rfl, rfl, rfl⟩
    | cons y steps =>
      rw [List.cons_append] at h
      obtain ⟨rfl, hrest⟩ := List.cons.inj h
      obtain ⟨before, m, after, rfl, rfl, rfl, rfl⟩ := ih hrest
      exact ⟨n :: before, m, after, rfl, rfl, rfl, rfl⟩

/-- The reviews that are left alone until they are due: those of the latest calls. -/
theorem mem_kept_stepsOf_iff {σ : Settings} {notices : List Notice} {w : Waiting Awaiting} :
    w ∈ Debouncer.kept 0 (stepsOf σ notices) ↔ ∃ before n after d trigger,
      notices = before ++ n :: after ∧ n.call? = some (d, trigger) ∧
      (inForce σ before).proactive = true ∧
      w = ⟨d.path, elapsed before + min (inForce σ before).debounceMillis longestDelay,
        ⟨d, trigger⟩⟩ ∧
      ∀ between m later, after = between ++ m :: later →
        m.supersedes (inForce σ (before ++ n :: between)) d.path = true →
          w.due ≤ elapsed before + elapsed between := by
  rw [Debouncer.mem_kept_zero_iff]
  constructor
  · rintro ⟨steps, key, delay, action, later, hsteps, rfl, hleft⟩
    obtain ⟨before, n, after, rfl, rfl, hn, rfl⟩ := exists_of_stepsOf_eq hsteps
    obtain ⟨d, trigger, hcall, hon, rfl, rfl, rfl⟩ := Notice.step_eq_schedule_iff.1 hn.symm
    rw [elapsed_stepsOf] at hleft ⊢
    refine ⟨before, n, after, d, trigger, rfl, hcall, hon, rfl, ?_⟩
    rintro between m rest rfl hm
    rw [stepsOf_append, ← inForce_append, List.append_assoc, List.singleton_append, stepsOf] at hleft
    have := hleft _ _ _ rfl (by rw [Notice.touches_step]; exact hm)
    rwa [elapsed_stepsOf] at this
  · rintro ⟨before, n, after, d, trigger, rfl, hcall, hon, rfl, hleft⟩
    refine ⟨stepsOf σ before, d.path, (inForce σ before).debounceMillis, ⟨d, trigger⟩,
      stepsOf (inForce σ (before ++ [n])) after, ?_, by rw [elapsed_stepsOf], ?_⟩
    · rw [stepsOf_append, stepsOf, inForce_append,
        Notice.step_eq_schedule_iff.2 ⟨d, trigger, hcall, hon, rfl, rfl, rfl⟩]
      rfl
    · intro steps x later hsteps htouches
      obtain ⟨between, m, rest, rfl, rfl, rfl, rfl⟩ := exists_of_stepsOf_eq hsteps
      rw [Notice.touches_step, ← inForce_append, List.append_assoc, List.singleton_append]
        at htouches
      rw [elapsed_stepsOf, elapsed_stepsOf]
      exact hleft between m rest rfl htouches

/-! ### What a run does -/

/-- What is done about a notice, before any time passes. -/
theorem tell_of_alone {s : Session} (h : s.earlier = []) (n : Notice) :
    (s.tell n).earlier = [] ∧ (s.tell n).engine.settings = n.settings s.engine.settings ∧
      (s.tell n).engine.timers = s.engine.timers.apply (n.step s.engine.settings) := by
  cases n with
  | changed d =>
    rw [tell, schedule_eq]
    exact ⟨h, rfl, rfl⟩
  | written d =>
    rw [tell, schedule_eq]
    exact ⟨h, rfl, rfl⟩
  | saved d =>
    have hsaved := undisturbed_request (s := { s with engine := s.engine.unschedule d.path }) h d
      .save s.engine.clock
    exact ⟨hsaved.alone, hsaved.settings, hsaved.timers⟩
  | reset => exact ⟨h, rfl, rfl⟩
  | configure settings => exact ⟨h, rfl, rfl⟩
  | tick clock => exact ⟨h, rfl, rfl⟩
  | pass ms => exact ⟨h, rfl, rfl⟩

theorem after_of_alone {s : Session} (h : s.earlier = []) (n : Notice) :
    (s.after n).earlier = [] ∧ (s.after n).engine.settings = n.settings s.engine.settings ∧
      (s.after n).engine.timers = s.engine.timers.after (n.step s.engine.settings) := by
  obtain ⟨halone, hsettings, htimers⟩ := tell_of_alone h n
  have hslept := undisturbed_sleep halone n.time
  have hadvance := (advance_of_alone halone n.time).2
  refine ⟨hslept.alone, hslept.settings.trans ?_, hslept.timers.trans ?_⟩
  · rw [hadvance, ← hsettings]
  · rw [hadvance, Debouncer.after, Notice.time_step, ← htimers]

theorem run_of_alone {s : Session} (h : s.earlier = []) (notices : List Notice) :
    (s.run notices).earlier = [] ∧
      (s.run notices).engine.settings = inForce s.engine.settings notices ∧
      (s.run notices).engine.timers =
        s.engine.timers.run (stepsOf s.engine.settings notices) := by
  induction notices generalizing s with
  | nil => exact ⟨h, rfl, rfl⟩
  | cons n notices ih =>
    obtain ⟨halone, hsettings, htimers⟩ := after_of_alone h n
    have hrest := ih halone
    rwa [hsettings, htimers] at hrest

/-- **What is asked for** is what the timers let begin. -/
theorem askedIn_perm {s : Session} (h : s.earlier = []) (notices : List Notice) :
    ((s.askedIn notices).map Asking.waiting).Perm
      (s.engine.timers.begun (stepsOf s.engine.settings notices)) := by
  induction notices generalizing s with
  | nil => exact .nil
  | cons n notices ih =>
    obtain ⟨halone, hsettings, htimers⟩ := tell_of_alone h n
    obtain ⟨hlater, hsettings', htimers'⟩ := after_of_alone h n
    have hrest := ih hlater
    have hfirst := map_waiting_askedAsleep halone n.time
    rw [hsettings', htimers'] at hrest
    rw [htimers] at hfirst
    rw [askedIn, List.map_append, stepsOf, Debouncer.begun, Notice.time_step]
    exact hfirst.append hrest

section Fresh

variable {s : Session} (halone : s.earlier = []) (hnone : s.engine.timers = .empty)

include halone hnone

theorem mem_askedIn_iff {notices : List Notice} {w : Waiting Awaiting} :
    w ∈ (s.askedIn notices).map Asking.waiting ↔
      w ∈ Debouncer.kept 0 (stepsOf s.engine.settings notices) ∧ w.due ≤ elapsed notices := by
  have hperm := askedIn_perm halone notices
  rw [hnone] at hperm
  rw [(hperm.trans (Debouncer.begun_empty _).2).mem_iff, List.mem_filter, elapsed_stepsOf,
    decide_eq_true_iff]

/-- What is asked for was called for, and nobody asks on demand. -/
theorem called_of_mem_askedIn {notices : List Notice} {a : Asking} (ha : a ∈ s.askedIn notices) :
    a.waiting.key = a.waiting.action.document.path ∧ a.waiting.action.trigger ≠ .onDemand := by
  have hmem := (mem_askedIn_iff halone hnone).1 (List.mem_map_of_mem ha)
  obtain ⟨before, n, after, d, trigger, -, hcall, -, hw, -⟩ := mem_kept_stepsOf_iff.1 hmem.1
  rw [hw]
  exact ⟨rfl, Notice.trigger_ne_of_call? hcall⟩

theorem settled_run (notices : List Notice) : (s.run notices).engine.timers.Settled ∧
    (s.run notices).engine.timers.now = elapsed notices := by
  rw [(run_of_alone halone notices).2.2, hnone, Debouncer.now_run, elapsed_stepsOf]
  exact ⟨Debouncer.settled_run Debouncer.settled_empty _, Nat.zero_add _⟩

/-- What is due at a notice is due while its time passes, and no path twice. -/
theorem due_of_mem_askedAt (notices : List Notice) (n : Notice) :
    (∀ a ∈ (s.run notices).askedAt n,
      elapsed notices ≤ a.waiting.due ∧ a.waiting.due ≤ elapsed notices + n.time) ∧
    ((((s.run notices).tell n).engine.timers.advance n.time).1.map
      fun w => w.action.document.path).Nodup := by
  obtain ⟨hsettled, hnow⟩ := settled_run halone hnone notices
  obtain ⟨htold, -, htimers⟩ := tell_of_alone (run_of_alone halone notices).1 n
  have hasked := map_waiting_askedAsleep htold n.time
  have htime := Notice.time_step (s.run notices).engine.settings n
  rw [htimers, ← htime] at hasked
  rw [htimers, ← htime, ← hnow]
  constructor
  · intro a ha
    rw [askedAt, ← htime] at ha
    exact hsettled.due_of_begins (hasked.mem_iff.1 (List.mem_map_of_mem ha))
  · -- The key of what waits is its path.
    rw [← List.map_congr_left fun w hw => ?_]
    · exact hsettled.apart_begins (n.step (s.run notices).engine.settings)
    · obtain ⟨a, ha, rfl⟩ := List.mem_map.1 (hasked.mem_iff.2 hw)
      rw [htime] at ha
      exact (called_of_mem_askedIn halone hnone (mem_askedIn_of_askedAt ha)).1

/-- Nothing becomes due when a document is saved. -/
theorem askedAt_saved (notices : List Notice) (d : Document) :
    (s.run notices).askedAt (.saved d) = [] := by
  obtain ⟨hsettled, -⟩ := settled_run halone hnone notices
  obtain ⟨htold, -, htimers⟩ := tell_of_alone (run_of_alone halone notices).1 (.saved d)
  have hasked := map_waiting_askedAsleep htold 0
  rw [htimers] at hasked
  refine List.eq_nil_iff_forall_not_mem.2 fun a ha => ?_
  have hbegins := hasked.mem_iff.1 (List.mem_map_of_mem ha)
  have hahead := hsettled.ahead a.waiting
    (List.mem_of_mem_filter (List.mem_filter.1 ((Debouncer.dueBy_perm _ _).mem_iff.1 hbegins)).1)
  have hdue := (hsettled.due_of_begins (s := .cancel d.path) hbegins).2
  exact absurd hahead (Nat.not_lt.2 hdue)

/-- Where no cycle was in flight, the path of what is due is free. -/
theorem free_of_mem_askedAt {notices : List Notice} {n : Notice} {a : Asking}
    (hflights : (s.run notices).engine.flights = []) (ha : a ∈ (s.run notices).askedAt n) :
    a.engine.flight? a.waiting.action.document.path = none := by
  obtain ⟨htold, -, -⟩ := tell_of_alone (run_of_alone halone notices).1 n
  refine (of_mem_askedAsleep htold ha).2 ?_ (due_of_mem_askedAt halone hnone notices n).2
  cases n with
  | saved d =>
    rw [askedAt_saved halone hnone] at ha
    cases ha
  | changed d =>
    rw [tell, schedule_eq]
    exact hflights
  | written d =>
    rw [tell, schedule_eq]
    exact hflights
  | _ => exact hflights

end Fresh

/-- **The latest version is reviewed, once.** While documents are changed, written and saved, the
session is reset, its settings and its clock change and time passes:

* the reviews that are asked for because their time has come are those of the calls that were made
  while the coach was to act on its own, for exactly the document and the trigger of the call, and
  that nothing superseded before they were due; a review is due the quiet time of the settings after
  its call, or the longest delay if that is less;
* each call asks for one review at most;
* a review is asked for while the time passes in which it is due, with the settings in force; it is
  refused as disabled exactly if the coach is not to act on its own then, and if no cycle was in
  flight, it is not refused as busy; if it is not refused, the cycle is one of that document. -/
theorem reviews_latest (settings : Settings) (store : FeedbackStore) (ids : Nat → String)
    (clock : Instant) (enhancer : Enhancer) (gate : Option (Gate CycleId))
    (notices : List Notice) :
    let first := ofEngine (.fresh settings store ids clock) enhancer gate
    let reviews := (first.askedIn notices).map Asking.waiting
    (∀ w, w ∈ reviews ↔ ∃ before n after d trigger,
      notices = before ++ n :: after ∧ n.call? = some (d, trigger) ∧
      (inForce settings before).proactive = true ∧
      w = ⟨d.path, elapsed before + min (inForce settings before).debounceMillis longestDelay,
        ⟨d, trigger⟩⟩ ∧
      w.due ≤ elapsed notices ∧
      ∀ between m later, after = between ++ m :: later →
        m.supersedes (inForce settings (before ++ n :: between)) d.path = true →
          w.due ≤ elapsed before + elapsed between) ∧
    (∃ kept, reviews.Perm kept ∧
      kept.Sublist (Debouncer.scheduled 0 (stepsOf settings notices))) ∧
    ∀ before n after, notices = before ++ n :: after → ∀ a ∈ (first.run before).askedAt n,
      (elapsed before ≤ a.waiting.due ∧ a.waiting.due ≤ elapsed before + n.time) ∧
      a.engine.settings = inForce settings (before ++ [n]) ∧
      (a.start.1 = some .disabled ↔ (inForce settings (before ++ [n])).proactive = false) ∧
      ((first.run before).engine.flights = [] → a.start.1 ≠ some .busy) ∧
      (a.start.1 = none → a.start.2.flight? a.waiting.action.document.path =
        some (a.engine.launch a.waiting.action.document a.waiting.action.trigger)) := by
  intro first reviews
  refine ⟨fun w => ?_, ?_, ?_⟩
  · rw [mem_askedIn_iff (s := first) rfl rfl, mem_kept_stepsOf_iff]
    constructor
    · rintro ⟨⟨before, n, after, d, trigger, heq, hcall, hon, hw, hleft⟩, hdue⟩
      exact ⟨before, n, after, d, trigger, heq, hcall, hon, hw, hdue, hleft⟩
    · rintro ⟨before, n, after, d, trigger, heq, hcall, hon, hw, hdue, hleft⟩
      exact ⟨⟨before, n, after, d, trigger, heq, hcall, hon, hw, hleft⟩, hdue⟩
  · exact ⟨_, (askedIn_perm (s := first) rfl notices).trans (Debouncer.begun_empty _).2,
      List.filter_sublist.trans (Debouncer.kept_sublist 0 _)⟩
  · rintro before n after - a ha
    obtain ⟨halone, hsettings, -⟩ := run_of_alone (s := first) rfl before
    obtain ⟨htold, hsettings', -⟩ := tell_of_alone halone n
    have hforce : a.engine.settings = inForce settings (before ++ [n]) := by
      rw [(of_mem_askedAsleep htold ha).1, hsettings', hsettings, inForce_append]
      rfl
    have htrigger : a.waiting.action.trigger ≠ .onDemand :=
      (called_of_mem_askedIn (s := first) rfl rfl (mem_askedIn_of_askedAt ha)).2
    refine ⟨(due_of_mem_askedAt (s := first) rfl rfl before n).1 a ha, hforce, ?_, ?_,
      Engine.flight?_launch⟩
    · rw [Asking.start, Engine.start_eq_disabled_iff, hforce]
      simp [htrigger]
    · intro hflights hbusy
      have hfree := free_of_mem_askedAt (s := first) rfl rfl hflights ha
      have hflight := Engine.flight?_of_busy hbusy
      rw [hfree] at hflight
      cases hflight

/-- A document is changed and then written again. It is reviewed as it was written, a second after
that; but by then the coach is not to act on its own. -/
theorem written_after_change :
    let d : Document := ⟨"// TODO: x", "text", "a.txt"⟩
    let d' : Document := ⟨"// TODO: y", "text", "a.txt"⟩
    let off := { Settings.default with proactive := false }
    let first := ofEngine
      (.fresh .default (.fresh ⟨.empty [], .memory .empty .none⟩) (fun _ => "") ⟨0, 0⟩)
      (fun _ => .ok "") none
    let before : List Notice := [.changed d, .pass 500, .written d', .pass 999, .configure off]
    ⟨"a.txt", 1500, ⟨d', .save⟩⟩ ∈ (first.askedIn (before ++ [.pass 1])).map Asking.waiting ∧
      ∀ a ∈ (first.run before).askedAt (.pass 1), a.start.1 = some .disabled := by
  intro d d' off first before
  obtain ⟨hreviews, -, hasked⟩ := reviews_latest .default
    (.fresh ⟨.empty [], .memory .empty .none⟩) (fun _ => "") ⟨0, 0⟩ (fun _ => .ok "") none
    (before ++ [.pass 1])
  refine ⟨(hreviews _).2 ⟨[.changed d, .pass 500], .written d',
    [.pass 999, .configure off, .pass 1], d', .save, rfl, rfl, rfl, rfl, by decide, ?_⟩, ?_⟩
  · intro between m later hsplit hm
    have hmem : m ∈ [.pass 999, .configure off, .pass 1] := by simp [hsplit]
    simp only [List.mem_cons, List.not_mem_nil, or_false] at hmem
    rcases hmem with rfl | rfl | rfl <;> cases hm
  · intro a ha
    exact (hasked before (.pass 1) [] rfl a ha).2.2.1.2 rfl

/-- A quiet time that is longer than the longest delay is over too early. -/
theorem reviewed_before_quiet_time :
    let d : Document := ⟨"// TODO: x", "text", "a.txt"⟩
    let settings := { Settings.default with debounceMillis := 946080000001 }
    let first := ofEngine
      (.fresh settings (.fresh ⟨.empty [], .memory .empty .none⟩) (fun _ => "") ⟨0, 0⟩)
      (fun _ => .ok "") none
    let notices : List Notice := [.changed d, .pass 946080000000]
    first.engine.flights = [] ∧ (first.run [.changed d]).engine.flights = [] ∧
      (first.askedIn notices).map Asking.waiting = [⟨"a.txt", 946080000000, ⟨d, .change⟩⟩] ∧
      (946080000000 : Nat) ≠ 0 + settings.debounceMillis := by
  intro d settings first notices
  refine ⟨rfl, by decide +kernel, ?_, by decide⟩
  have hperm := askedIn_perm (s := first) rfl notices
  have hbegun : first.engine.timers.begun (stepsOf settings notices) =
      [⟨"a.txt", 946080000000, ⟨d, .change⟩⟩] := by
    simp [notices, first, settings, d, ofEngine, Engine.fresh, stepsOf, Notice.step,
      callStep, Settings.default, Debouncer.begun, Debouncer.after, Debouncer.apply, Debouncer.schedule,
      Debouncer.others, Debouncer.advance, Debouncer.dueBy, endOfDelay, longestDelay,
      Debouncer.empty, Debouncer.Step.time]
  exact List.perm_singleton.1 (hbegun ▸ hperm)

end Session

end CodeCoach
