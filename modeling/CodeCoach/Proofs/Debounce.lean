import CodeCoach.Debounce
import Mathlib.Algebra.GroupWithZero.Nat
import Mathlib.Data.Finset.Card
import Mathlib.Data.List.Perm.Subperm

/-!
# The latest action of a key wins

Actions are scheduled and cancelled, and time passes. Of all the actions of a key, those begin that
are left alone until they are due.

* `Debouncer.Step`, `Debouncer.after`, `Debouncer.run`, `Debouncer.begun`; all that is due by the end
  of a step begins before the next one;
* `Debouncer.kept`, the actions that are left alone, told from the steps alone;
* `Debouncer.Settled`, the invariant, and `begun_run`: what waits and what has begun are the kept
  actions, before and after they are due;
* `Schedule.log_perm`: what has begun ends, whatever comes later;
* `begins_when_left_alone`, what holds of all steps.
-/

namespace CodeCoach

namespace Debouncer

variable {α : Type}

/-- Something that happens to a debouncer. -/
inductive Step (α : Type)
  | schedule (key : String) (delay : Nat) (action : α)
  | cancel (key : String)
  | cancelAll
  | elapse (ms : Nat)

namespace Step

/-- The time that passes. -/
def time : Step α → Nat
  | elapse ms => ms
  | _ => 0

/-- Whether the step replaces or drops what waits for a key. -/
def touches (key : String) : Step α → Bool
  | schedule other _ _ => key == other
  | cancel other => key == other
  | cancelAll => true
  | elapse _ => false

/-- Whether the step is not about other keys. -/
def concerns (key : String) : Step α → Bool
  | schedule other _ _ => key == other
  | cancel other => key == other
  | cancelAll => true
  | elapse _ => true

/-- The action that is scheduled, with the time at which it is due. -/
def scheduled? (now : Nat) : Step α → Option (Waiting α)
  | schedule key delay action => some ⟨key, endOfDelay now delay, action⟩
  | _ => none

theorem touches_of_scheduled? {s : Step α} {now : Nat} {w : Waiting α}
    (h : s.scheduled? now = some w) : s.touches w.key = true := by
  cases s with
  | schedule key delay action =>
    obtain rfl := Option.some.inj h
    exact beq_self_eq_true key
  | _ => cases h

/-- What is about another key takes no time and leaves the key alone. -/
theorem of_not_concerns {s : Step α} {key : String} (h : s.concerns key = false) :
    s.time = 0 ∧ s.touches key = false ∧ ∀ now w, s.scheduled? now = some w → w.key ≠ key := by
  cases s with
  | schedule other delay action =>
    refine ⟨rfl, h, ?_⟩
    rintro now w hw rfl
    obtain rfl := Option.some.inj hw
    simp [concerns] at h
  | cancel other => exact ⟨rfl, h, fun now w hw => nomatch hw⟩
  | cancelAll => cases h
  | elapse ms => cases h

end Step

/-! ### Runs -/

/-- Does what a step asks for. No time passes yet. -/
def apply (d : Debouncer α) : Step α → Debouncer α
  | .schedule key delay action => d.schedule key delay action
  | .cancel key => (d.cancel key).2
  | .cancelAll => d.cancelAll
  | .elapse _ => d

/-- The debouncer after a step, when everything that is due has begun. -/
def after (d : Debouncer α) (s : Step α) : Debouncer α := ((d.apply s).advance s.time).2

/-- The debouncer after steps. -/
def run (d : Debouncer α) (steps : List (Step α)) : Debouncer α := steps.foldl after d

/-- The actions that begin in the course of steps, each with its time. -/
def begun (d : Debouncer α) : List (Step α) → List (Waiting α)
  | [] => []
  | s :: steps => ((d.apply s).advance s.time).1 ++ (d.after s).begun steps

@[simp] theorem run_nil (d : Debouncer α) : d.run [] = d := rfl

@[simp] theorem run_cons (d : Debouncer α) (s : Step α) (steps : List (Step α)) :
    d.run (s :: steps) = (d.after s).run steps := rfl

/-- The time that passes in the course of steps. -/
def elapsed (steps : List (Step α)) : Nat := (steps.map Step.time).sum

@[simp] theorem elapsed_nil : elapsed ([] : List (Step α)) = 0 := rfl

@[simp] theorem elapsed_cons (s : Step α) (steps : List (Step α)) :
    elapsed (s :: steps) = s.time + elapsed steps := List.sum_cons

@[simp] theorem now_apply (d : Debouncer α) (s : Step α) : (d.apply s).now = d.now := by
  cases s <;> rfl

theorem now_after (d : Debouncer α) (s : Step α) : (d.after s).now = d.now + s.time := by
  rw [after, advance, now_apply]

theorem now_run (d : Debouncer α) (steps : List (Step α)) :
    (d.run steps).now = d.now + elapsed steps := by
  induction steps generalizing d with
  | nil => rfl
  | cons s steps ih => rw [run_cons, ih, now_after, elapsed_cons, Nat.add_assoc]

/-! ### Actions that are left alone -/

/-- No step replaces or drops the action before it is due. -/
def leftAlone (w : Waiting α) (now : Nat) : List (Step α) → Bool
  | [] => true
  | s :: steps => (!s.touches w.key || w.due ≤ now) && leftAlone w (now + s.time) steps

/-- The actions that are scheduled, each with the time at which it is due. -/
def scheduled (now : Nat) : List (Step α) → List (Waiting α)
  | [] => []
  | s :: steps => (s.scheduled? now).toList ++ scheduled (now + s.time) steps

/-- The scheduled actions that are left alone. -/
def kept (now : Nat) : List (Step α) → List (Waiting α)
  | [] => []
  | s :: steps =>
    (s.scheduled? now).toList.filter (leftAlone · (now + s.time) steps) ++
      kept (now + s.time) steps

theorem kept_sublist (now : Nat) (steps : List (Step α)) :
    (kept now steps).Sublist (scheduled now steps) := by
  induction steps generalizing now with
  | nil => exact .slnil
  | cons s steps ih => exact List.filter_sublist.append (ih (now + s.time))

theorem leftAlone_of_due {w : Waiting α} {now : Nat} (h : w.due ≤ now) (steps : List (Step α)) :
    leftAlone w now steps = true := by
  induction steps generalizing now with
  | nil => rfl
  | cons s steps ih =>
    have hlater := ih (Nat.le_add_right_of_le (k := s.time) h)
    simp [leftAlone, h, hlater]

theorem leftAlone_iff {w : Waiting α} {now : Nat} {steps : List (Step α)} :
    leftAlone w now steps = true ↔ ∀ before s after, steps = before ++ s :: after →
      s.touches w.key = true → w.due ≤ now + elapsed before := by
  induction steps generalizing now with
  | nil => simp [leftAlone]
  | cons s steps ih =>
    rw [leftAlone, Bool.and_eq_true, Bool.or_eq_true, Bool.not_eq_true', decide_eq_true_eq, ih]
    constructor
    · rintro ⟨hfirst, hrest⟩ before s' after heq htouches
      cases before with
      | nil =>
        obtain ⟨rfl, -⟩ := List.cons.inj heq
        exact hfirst.resolve_left (by simp [htouches])
      | cons first before =>
        obtain ⟨rfl, rfl⟩ := List.cons.inj heq
        rw [elapsed_cons, ← Nat.add_assoc]
        exact hrest before s' after rfl htouches
    · intro h
      refine ⟨?_, fun before s' after heq htouches => ?_⟩
      · cases htouches : s.touches w.key with
        | false => exact Or.inl rfl
        | true => exact Or.inr (h [] s steps rfl htouches)
      · rw [Nat.add_assoc, ← elapsed_cons]
        exact h (s :: before) s' after (by rw [heq]; rfl) htouches

theorem mem_kept_iff {w : Waiting α} {now : Nat} {steps : List (Step α)} :
    w ∈ kept now steps ↔ ∃ before s after, steps = before ++ s :: after ∧
      s.scheduled? (now + elapsed before) = some w ∧
      leftAlone w (now + elapsed before + s.time) after = true := by
  induction steps generalizing now with
  | nil => simp [kept]
  | cons s steps ih =>
    rw [kept, List.mem_append, List.mem_filter, Option.mem_toList, ih]
    constructor
    · rintro (⟨hw, hleft⟩ | ⟨before, s', after, rfl, hw, hleft⟩)
      · exact ⟨[], s, steps, rfl, hw, hleft⟩
      · refine ⟨s :: before, s', after, rfl, ?_, ?_⟩ <;> rw [elapsed_cons, ← Nat.add_assoc]
        · exact hw
        · exact hleft
    · rintro ⟨before, s', after, heq, hw, hleft⟩
      cases before with
      | nil =>
        obtain ⟨rfl, rfl⟩ := List.cons.inj heq
        exact Or.inl ⟨hw, hleft⟩
      | cons first before =>
        obtain ⟨rfl, rfl⟩ := List.cons.inj heq
        rw [elapsed_cons, ← Nat.add_assoc] at hw hleft
        exact Or.inr ⟨before, s', after, rfl, hw, hleft⟩

theorem mem_kept_zero_iff {w : Waiting α} {steps : List (Step α)} :
    w ∈ kept 0 steps ↔ ∃ before key delay action after,
      steps = before ++ .schedule key delay action :: after ∧
      w = ⟨key, elapsed before + min delay longestDelay, action⟩ ∧
      ∀ between s later, after = between ++ s :: later → s.touches key = true →
        w.due ≤ elapsed before + elapsed between := by
  rw [mem_kept_iff]
  simp only [Nat.zero_add]
  constructor
  · rintro ⟨before, s, after, rfl, hw, hleft⟩
    cases s with
    | schedule key delay action =>
      obtain rfl := Option.some.inj hw
      exact ⟨before, key, delay, action, after, rfl, rfl, leftAlone_iff.1 hleft⟩
    | _ => cases hw
  · rintro ⟨before, key, delay, action, after, rfl, rfl, hleft⟩
    exact ⟨before, _, after, rfl, rfl, leftAlone_iff.2 hleft⟩

/-! ### What waits -/

theorem waiting_apply (d : Debouncer α) (s : Step α) :
    (d.apply s).waiting =
      d.waiting.filter (fun w => !s.touches w.key) ++ (s.scheduled? d.now).toList := by
  cases s with
  | schedule key delay action => rfl
  | cancel key => exact (List.append_nil _).symm
  | cancelAll => simp [apply, cancelAll, Step.touches, Step.scheduled?]
  | elapse ms => simp [apply, Step.touches, Step.scheduled?]

/-- Nothing that is due waits, and no two actions wait for one key. -/
structure Settled (d : Debouncer α) : Prop where
  ahead : ∀ w ∈ d.waiting, d.now < w.due
  apart : (d.waiting.map Waiting.key).Nodup

theorem settled_empty : Settled (empty : Debouncer α) := ⟨by simp [empty], List.nodup_nil⟩

/-- What waited for the key of a new action is replaced. -/
theorem Settled.apart_apply {d : Debouncer α} (h : d.Settled) (s : Step α) :
    ((d.apply s).waiting.map Waiting.key).Nodup := by
  rw [waiting_apply, List.map_append]
  refine List.nodup_append'.2 ⟨?_, ?_, ?_⟩
  · exact h.apart.sublist (List.filter_sublist.map _)
  · cases s.scheduled? d.now <;> simp
  · rintro key hold hnew
    obtain ⟨w, hw, rfl⟩ := List.mem_map.1 hnew
    obtain ⟨w', hw', hkey⟩ := List.mem_map.1 hold
    have htouches := Step.touches_of_scheduled? (Option.mem_toList.1 hw)
    have := (List.mem_filter.1 hw').2
    rw [hkey, htouches] at this
    cases this

theorem dueBy_perm (ws : List (Waiting α)) (time : Nat) :
    (dueBy ws time).Perm (ws.filter fun w => w.due ≤ time) := List.mergeSort_perm _ _

/-- What begins at a step is due in its time. -/
theorem Settled.due_of_begins {d : Debouncer α} (h : d.Settled) {s : Step α} {w : Waiting α}
    (hw : w ∈ ((d.apply s).advance s.time).1) : d.now ≤ w.due ∧ w.due ≤ d.now + s.time := by
  obtain ⟨hw, hdue⟩ := List.mem_filter.1 ((dueBy_perm _ _).mem_iff.1 hw)
  rw [now_apply, decide_eq_true_iff] at hdue
  refine ⟨?_, hdue⟩
  rw [waiting_apply, List.mem_append] at hw
  rcases hw with hw | hw
  · exact (h.ahead w (List.mem_of_mem_filter hw)).le
  · cases s with
    | schedule key delay action =>
      obtain rfl := Option.some.inj (Option.mem_toList.1 hw)
      exact Nat.le_add_right _ _
    | _ => simp [Step.scheduled?] at hw

/-- No two actions of one key begin at a step. -/
theorem Settled.apart_begins {d : Debouncer α} (h : d.Settled) (s : Step α) :
    (((d.apply s).advance s.time).1.map Waiting.key).Nodup := by
  have hperm := (dueBy_perm (d.apply s).waiting ((d.apply s).now + s.time)).map Waiting.key
  exact hperm.nodup_iff.2 ((h.apart_apply s).sublist (List.filter_sublist.map _))

theorem Settled.after {d : Debouncer α} (h : d.Settled) (s : Step α) : (d.after s).Settled := by
  have hwaiting : (d.after s).waiting =
      (d.apply s).waiting.filter fun w => (d.after s).now < w.due := rfl
  constructor
  · intro w hw
    rw [hwaiting] at hw
    simpa using (List.mem_filter.1 hw).2
  · rw [hwaiting]
    exact (h.apart_apply s).sublist (List.filter_sublist.map _)

theorem settled_run {d : Debouncer α} (h : d.Settled) (steps : List (Step α)) :
    (d.run steps).Settled := by
  induction steps generalizing d with
  | nil => exact h
  | cons s steps ih => exact ih (h.after s)

/-- The actions that wait or will be scheduled and are left alone. -/
def future (d : Debouncer α) (steps : List (Step α)) : List (Waiting α) :=
  d.waiting.filter (leftAlone · d.now steps) ++ kept d.now steps

theorem future_cons {d : Debouncer α} (h : d.Settled) (s : Step α) (steps : List (Step α)) :
    d.future (s :: steps) =
      (d.apply s).waiting.filter (leftAlone · (d.now + s.time) steps) ++
        kept (d.now + s.time) steps := by
  have hwaiting : d.waiting.filter (leftAlone · d.now (s :: steps)) =
      (d.waiting.filter fun w => !s.touches w.key).filter
        (leftAlone · (d.now + s.time) steps) := by
    rw [List.filter_filter]
    refine List.filter_congr fun w hw => ?_
    have hahead : ¬ w.due ≤ d.now := Nat.not_le.2 (h.ahead w hw)
    simp [leftAlone, hahead, Bool.and_comm]
  rw [future, hwaiting, kept, waiting_apply, List.filter_append, List.append_assoc]

/-- Of the actions at some time, those that are due later are among those that go on to wait. -/
theorem filter_ahead (ws : List (Waiting α)) {time later : Nat} (h : time ≤ later)
    (steps : List (Step α)) :
    ((ws.filter fun w => time < w.due).filter (leftAlone · time steps)).filter
        (fun w => later < w.due) =
      (ws.filter (leftAlone · time steps)).filter fun w => later < w.due := by
  simp only [List.filter_filter]
  refine List.filter_congr fun w _ => ?_
  by_cases hlater : later < w.due
  · have htime : time < w.due := by omega
    simp [hlater, htime]
  · simp [hlater]

/-- What is over by some later time is over now or will be over by then. -/
theorem filter_le_perm {β : Type} (l : List β) (f : β → Nat) {time later : Nat}
    (h : time ≤ later) :
    ((l.filter fun b => f b ≤ time) ++
        (l.filter fun b => time < f b).filter fun b => f b ≤ later).Perm
      (l.filter fun b => f b ≤ later) := by
  have hnow : (l.filter fun b => f b ≤ later).filter (fun b => f b ≤ time) =
      l.filter fun b => f b ≤ time := by
    rw [List.filter_filter]
    refine List.filter_congr fun b _ => ?_
    by_cases hb : f b ≤ time
    · have hlater : f b ≤ later := by omega
      simp [hb, hlater]
    · simp [hb]
  have hrest : (l.filter fun b => f b ≤ later).filter (fun b => !decide (f b ≤ time)) =
      (l.filter fun b => time < f b).filter fun b => f b ≤ later := by
    rw [List.filter_filter, List.filter_filter]
    refine List.filter_congr fun b _ => ?_
    simp only [← Nat.not_le, decide_not, Bool.and_comm]
  rw [← hrest, ← hnow]
  exact List.filter_append_perm _ _

/-- Of the actions at some time, those that begin until later begin now or go on to wait. -/
theorem filter_due_perm (ws : List (Waiting α)) {time later : Nat} (h : time ≤ later)
    (steps : List (Step α)) :
    ((ws.filter fun w => w.due ≤ time) ++
        ((ws.filter fun w => time < w.due).filter (leftAlone · time steps)).filter
          fun w => w.due ≤ later).Perm
      ((ws.filter (leftAlone · time steps)).filter fun w => w.due ≤ later) := by
  have hnow : ws.filter (fun w => w.due ≤ time) =
      (ws.filter (leftAlone · time steps)).filter fun w => w.due ≤ time := by
    rw [List.filter_filter]
    refine List.filter_congr fun w _ => ?_
    by_cases hdue : w.due ≤ time
    · simp [hdue, leftAlone_of_due hdue]
    · simp [hdue]
  have hrest : (ws.filter fun w => time < w.due).filter (leftAlone · time steps) =
      (ws.filter (leftAlone · time steps)).filter fun w => time < w.due := List.filter_comm _ _ _
  rw [hnow, hrest]
  exact filter_le_perm _ Waiting.due h

/-- **What waits and what has begun** are the actions that are left alone, before and after they are
due. -/
theorem begun_run {d : Debouncer α} (h : d.Settled) (steps : List (Step α)) :
    (d.run steps).waiting = (d.future steps).filter (fun w => (d.run steps).now < w.due) ∧
      (d.begun steps).Perm ((d.future steps).filter fun w => w.due ≤ (d.run steps).now) := by
  induction steps generalizing d with
  | nil =>
    have hfuture : d.future [] = d.waiting := by simp [future, leftAlone, kept]
    rw [hfuture, run_nil]
    refine ⟨(List.filter_eq_self.2 fun w hw => decide_eq_true (h.ahead w hw)).symm, ?_⟩
    rw [List.filter_eq_nil_iff.2 fun w hw => by simpa using h.ahead w hw]
    exact .nil
  | cons s steps ih =>
    obtain ⟨hwaits, hbegun⟩ := ih (h.after s)
    have hlater : d.now + s.time ≤ (d.run (s :: steps)).now := by
      rw [now_run, elapsed_cons]
      omega
    have hdue : ((d.apply s).advance s.time).1.Perm
        ((d.apply s).waiting.filter fun w => w.due ≤ d.now + s.time) := by
      rw [← now_apply d s]
      exact dueBy_perm _ _
    have hfuture : (d.after s).future steps =
        ((d.apply s).waiting.filter fun w => d.now + s.time < w.due).filter
          (leftAlone · (d.now + s.time) steps) ++ kept (d.now + s.time) steps := by
      rw [future, now_after, ← now_apply d s]
      rfl
    rw [← run_cons] at hwaits hbegun
    rw [hfuture, List.filter_append] at hwaits hbegun
    rw [future_cons h, List.filter_append, List.filter_append]
    refine ⟨?_, ?_⟩
    · rw [hwaits, filter_ahead _ hlater]
    · refine (hdue.append hbegun).trans ?_
      rw [← List.append_assoc]
      exact (filter_due_perm _ hlater steps).append_right _

/-! ### Other keys -/

theorem elapsed_concerns (key : String) (steps : List (Step α)) :
    elapsed (steps.filter (Step.concerns key)) = elapsed steps := by
  induction steps with
  | nil => rfl
  | cons s steps ih =>
    cases hs : s.concerns key with
    | true => rw [List.filter_cons_of_pos hs, elapsed_cons, elapsed_cons, ih]
    | false =>
      rw [List.filter_cons_of_neg (by simp [hs]), ih, elapsed_cons, (Step.of_not_concerns hs).1,
        Nat.zero_add]

theorem leftAlone_concerns (w : Waiting α) (now : Nat) (steps : List (Step α)) :
    leftAlone w now (steps.filter (Step.concerns w.key)) = leftAlone w now steps := by
  induction steps generalizing now with
  | nil => rfl
  | cons s steps ih =>
    cases hs : s.concerns w.key with
    | true => rw [List.filter_cons_of_pos hs, leftAlone, leftAlone, ih]
    | false =>
      obtain ⟨htime, htouches, -⟩ := Step.of_not_concerns hs
      rw [List.filter_cons_of_neg (by simp [hs]), ih, leftAlone, htouches, htime]
      simp

theorem kept_concerns (key : String) (now : Nat) (steps : List (Step α)) :
    (kept now (steps.filter (Step.concerns key))).filter (fun w => w.key == key) =
      (kept now steps).filter fun w => w.key == key := by
  induction steps generalizing now with
  | nil => rfl
  | cons s steps ih =>
    cases hs : s.concerns key with
    | true =>
      have hnew : ∀ w ∈ (s.scheduled? now).toList,
          (w.key == key && leftAlone w (now + s.time) (steps.filter (Step.concerns key))) =
            (w.key == key && leftAlone w (now + s.time) steps) := by
        intro w _
        by_cases hkey : w.key = key
        · rw [← hkey, leftAlone_concerns]
        · rw [beq_false_of_ne hkey, Bool.false_and, Bool.false_and]
      rw [List.filter_cons_of_pos hs, kept, kept, List.filter_append, List.filter_append, ih,
        List.filter_filter, List.filter_filter, List.filter_congr hnew]
    | false =>
      obtain ⟨htime, -, hother⟩ := Step.of_not_concerns hs
      have hnone : ((s.scheduled? now).toList.filter (leftAlone · (now + s.time) steps)).filter
          (fun w => w.key == key) = [] := by
        refine List.filter_eq_nil_iff.2 fun w hw => ?_
        have := hother now w (Option.mem_toList.1 (List.mem_filter.1 hw).1)
        simpa using this
      rw [List.filter_cons_of_neg (by simp [hs]), ih, kept, List.filter_append, hnone, htime]
      rfl

theorem begun_empty (steps : List (Step α)) :
    ((empty : Debouncer α).run steps).waiting =
        (kept 0 steps).filter (fun w => elapsed steps < w.due) ∧
      ((empty : Debouncer α).begun steps).Perm
        ((kept 0 steps).filter fun w => w.due ≤ elapsed steps) := by
  have hnow : ((empty : Debouncer α).run steps).now = elapsed steps :=
    (now_run _ steps).trans (Nat.zero_add _)
  have h := begun_run (settled_empty (α := α)) steps
  rwa [hnow] at h

theorem begun_concerns (key : String) (steps : List (Step α)) :
    (((empty : Debouncer α).begun (steps.filter (Step.concerns key))).filter
        fun w => w.key == key).Perm
      (((empty : Debouncer α).begun steps).filter fun w => w.key == key) := by
  have hown := (begun_empty (steps.filter (Step.concerns key))).2.filter fun w => w.key == key
  have hall := (begun_empty steps).2.filter fun w => w.key == key
  rw [List.filter_comm, kept_concerns, elapsed_concerns, List.filter_comm] at hown
  exact hown.trans hall.symm

theorem cancel_fst_iff {d : Debouncer α} {key : String} :
    (d.cancel key).1 = true ↔ ∃ w ∈ d.waiting, w.key = key := by
  simp [cancel]

theorem cancel_concerns (key : String) (steps : List (Step α)) :
    (((empty : Debouncer α).run (steps.filter (Step.concerns key))).cancel key).1 =
      (((empty : Debouncer α).run steps).cancel key).1 := by
  have hwaits : ((empty : Debouncer α).run (steps.filter (Step.concerns key))).waiting.filter
      (fun w => w.key == key) =
      ((empty : Debouncer α).run steps).waiting.filter fun w => w.key == key := by
    rw [(begun_empty _).1, (begun_empty _).1, List.filter_comm, kept_concerns, elapsed_concerns,
      List.filter_comm]
  have hmem : ∀ d : Debouncer α, (d.cancel key).1 = true ↔
      ∃ w, w ∈ d.waiting.filter fun w => w.key == key := by
    simp [cancel_fst_iff]
  rw [Bool.eq_iff_iff, hmem, hmem, hwaits]

end Debouncer

/-! ### Chores -/

namespace Schedule

open Debouncer

/-- The log of a step, and the chores after it. -/
def step (s : Schedule) (x : Step Chore) : List LogEntry × Schedule :=
  advance { s with timers := s.timers.apply x } x.time

/-- The log of steps. -/
def log (s : Schedule) : List (Step Chore) → List LogEntry
  | [] => []
  | x :: steps => (s.step x).1 ++ (s.step x).2.log steps

/-- The log of a step: what begins, and what ends by then. -/
theorem step_perm (s : Schedule) (x : Step Chore) :
    let begun := ((s.timers.apply x).advance x.time).1
    let ending := s.ending ++ begun.filterMap onEnd
    (s.step x).1.Perm
        (begun.map onBegin ++ ending.filter fun e => e.1 ≤ (s.timers.after x).now) ∧
      (s.step x).2 =
        ⟨s.timers.after x, ending.filter fun e => (s.timers.after x).now < e.1⟩ :=
  ⟨List.mergeSort_perm _ _, rfl⟩

/-- **What has begun ends.** The log has the beginnings of all chores that have begun, and the ends
of all those whose time is over, whatever was scheduled or cancelled in between. -/
theorem log_perm {s : Schedule} (h : ∀ e ∈ s.ending, s.timers.now < e.1)
    (steps : List (Step Chore)) :
    (s.log steps).Perm ((s.timers.begun steps).map onBegin ++
      (s.ending ++ (s.timers.begun steps).filterMap onEnd).filter
        fun e => e.1 ≤ (s.timers.run steps).now) := by
  induction steps generalizing s with
  | nil =>
    have hnone : s.ending.filter (fun e => e.1 ≤ s.timers.now) = [] :=
      List.filter_eq_nil_iff.2 fun e he => by simpa using h e he
    rw [begun, run_nil, List.filterMap_nil, List.append_nil, hnone]
    exact .nil
  | cons x steps ih =>
    obtain ⟨hlog, hnext⟩ := s.step_perm x
    have hlater : (s.timers.after x).now ≤ (s.timers.run (x :: steps)).now := by
      rw [run_cons, now_run]
      exact Nat.le_add_right _ _
    have hrest : ((s.step x).2.log steps).Perm (((s.timers.after x).begun steps).map onBegin ++
        (((s.ending ++ ((s.timers.apply x).advance x.time).1.filterMap onEnd).filter
            fun e => (s.timers.after x).now < e.1) ++
          ((s.timers.after x).begun steps).filterMap onEnd).filter
            fun e => e.1 ≤ (s.timers.run (x :: steps)).now) := by
      rw [hnext]
      exact ih fun e he => by simpa using (List.mem_filter.1 he).2
    rw [List.filter_append (List.filter _ _)] at hrest
    rw [log, begun, List.map_append, List.filterMap_append, ← List.append_assoc s.ending,
      List.filter_append (s.ending ++ _)]
    refine (hlog.append hrest).trans ?_
    simp only [List.append_assoc]
    refine List.Perm.append_left _ ((List.perm_append_comm_assoc _ _ _).trans ?_)
    -- What ends until later ends now or is still to end.
    refine List.Perm.append_left _ ?_
    rw [← List.append_assoc]
    exact (filter_le_perm _ Prod.fst hlater).append_right _

end Schedule

/-- **Of the actions of a key, those that are left alone begin.** Whatever is scheduled and
cancelled, for any keys, while time passes:

* what has begun is, each at most once, what was scheduled, is kept and is due; an action is due its
  delay after it was scheduled, or the longest delay if that is less;
* an action is kept if nothing replaces or drops what waits for its key before it is due;
* cancelling says whether a kept action of the key is still to begin, and the keys of such actions
  are counted as pending;
* what is about other keys makes no difference;
* chores that have begun end when their time is over, whatever comes later. -/
theorem Debouncer.begins_when_left_alone (steps : List (Debouncer.Step α)) :
    let first : Debouncer α := .empty
    let d := first.run steps
    let kept := Debouncer.kept 0 steps
    ((first.begun steps).Perm (kept.filter fun w => w.due ≤ elapsed steps) ∧
      kept.Sublist (scheduled 0 steps)) ∧
    (∀ w, w ∈ kept ↔ ∃ before key delay action after,
      steps = before ++ .schedule key delay action :: after ∧
      w = ⟨key, elapsed before + min delay longestDelay, action⟩ ∧
      ∀ between s later, after = between ++ s :: later → s.touches key = true →
        w.due ≤ elapsed before + elapsed between) ∧
    (∀ key, (d.cancel key).1 = true ↔ ∃ w ∈ kept, w.key = key ∧ elapsed steps < w.due) ∧
    d.pending = ((kept.filter fun w => elapsed steps < w.due).map Waiting.key).toFinset.card ∧
    (∀ key, let own := steps.filter (Step.concerns key)
      ((first.begun own).filter fun w => w.key == key).Perm
        ((first.begun steps).filter fun w => w.key == key) ∧
      ((first.run own).cancel key).1 = (d.cancel key).1) ∧
    ∀ chores : List (Step Chore), (Schedule.empty.log chores).Perm
      (((empty : Debouncer Chore).begun chores).map Schedule.onBegin ++
        (((empty : Debouncer Chore).begun chores).filterMap Schedule.onEnd).filter
          fun e => e.1 ≤ elapsed chores) := by
  intro first d kept
  obtain ⟨hwaits, hbegun⟩ := begun_empty steps
  refine ⟨⟨hbegun, kept_sublist 0 steps⟩, fun w => mem_kept_zero_iff, fun key => ?_, ?_,
    fun key => ⟨begun_concerns key steps, cancel_concerns key steps⟩, fun chores => ?_⟩
  · rw [cancel_fst_iff, hwaits]
    constructor
    · rintro ⟨w, hw, hkey⟩
      obtain ⟨hkept, hdue⟩ := List.mem_filter.1 hw
      exact ⟨w, hkept, hkey, by simpa using hdue⟩
    · rintro ⟨w, hkept, hkey, hdue⟩
      exact ⟨w, List.mem_filter.2 ⟨hkept, by simpa using hdue⟩, hkey⟩
  · have hapart := (settled_run settled_empty steps).apart
    rw [hwaits] at hapart
    rw [List.toFinset_card_of_nodup hapart, List.length_map, ← hwaits]
    rfl
  · have h := Schedule.log_perm (s := Schedule.empty) (by simp [Schedule.empty]) chores
    have hnow : (Schedule.empty.timers.run chores).now = elapsed chores :=
      (now_run _ chores).trans (Nat.zero_add _)
    rw [hnow] at h
    exact h

/-- A delay that is longer than the longest one is over too early. -/
theorem Debouncer.begins_before_its_delay :
    let steps : List (Debouncer.Step Unit) :=
      [.schedule "a" 946080000001 (), .elapse 946080000000]
    (Debouncer.empty : Debouncer Unit).begun steps = [⟨"a", 946080000000, ()⟩] ∧
      elapsed steps < 0 + 946080000001 ∧ (946080000000 : Nat) ≠ 0 + 946080000001 := by
  intro steps
  refine ⟨?_, by decide, by decide⟩
  simp [steps, begun, Debouncer.after, apply, schedule, others, advance, dueBy, endOfDelay,
    longestDelay, empty, Step.time]

end CodeCoach
