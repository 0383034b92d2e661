import CodeCoach.Proofs.Cooldown
import CodeCoach.Proofs.Engine.Cycles
import Mathlib.Data.List.Chain

/-!
# The cycles of a document keep their distance

A cycle that gets past the cooldown is a pass of its path, whatever becomes of it later.

* `Pass`, when a cycle was let through, and the window that was in force;
* `Engine.passes`, the passes of a path in a run;
* `lastPass_run`: what the cooldown records of a path is the last of its passes;
* `passes_keep_apart`: two passes in a row are at least the window of the second apart.

The instants come from outside, in any order.
-/

namespace CodeCoach

/-- A cycle that was let through. -/
structure Pass where
  time : Instant
  /-- The window of the cooldown that was in force. -/
  window : Int
  deriving DecidableEq, Repr

namespace Engine

/-- The pass of a path that a move is. -/
def pass? (e : Engine) (path : String) : Move → Option Pass
  | .start d trigger now =>
    if d.path = path ∧ (e.start d trigger now).1 = none then
      some ⟨now, spanOfSeconds e.settings.cooldownSeconds⟩
    else none
  | _ => none

/-- The passes of a path in the course of moves. -/
def passes (e : Engine) (path : String) : List Move → List Pass
  | [] => []
  | m :: moves => (e.pass? path m).toList ++ (e.after m).passes path moves

theorem passes_concat (e : Engine) (path : String) (moves : List Move) (m : Move) :
    e.passes path (moves ++ [m]) = e.passes path moves ++ ((e.run moves).pass? path m).toList := by
  induction moves generalizing e with
  | nil => simp [passes]
  | cons n moves ih => simp [passes, ih]

theorem pass?_eq_some_iff {e : Engine} {path : String} {m : Move} {p : Pass} :
    e.pass? path m = some p ↔ ∃ d trigger now, m = .start d trigger now ∧ d.path = path ∧
      (e.start d trigger now).1 = none ∧ p = ⟨now, spanOfSeconds e.settings.cooldownSeconds⟩ := by
  cases m with
  | start d trigger now =>
    by_cases h : d.path = path ∧ (e.start d trigger now).1 = none
    · simp [pass?, h, eq_comm]
    · simp only [pass?, if_neg h, reduceCtorEq, false_iff]
      rintro ⟨_, _, _, ⟨rfl, rfl, rfl⟩, hd, hadmitted, -⟩
      exact h ⟨hd, hadmitted⟩
  | _ => simp [pass?]

/-! ### The record of a path -/

theorem lastPass_start (e : Engine) (d : Document) (trigger : Trigger) (now : Instant)
    (path : String) :
    (e.start d trigger now).2.cooldown.lastPass path =
      if path = d.path ∧ (e.start d trigger now).1 = none then some now
      else e.cooldown.lastPass path := by
  cases e.requested d trigger now with
  | disabled heq _ => simp [heq]
  | busy heq _ _ => simp [heq]
  | coolingDown heq _ _ _ => simp [heq]
  | admitted heq _ _ _ => simp [heq, Cooldown.lastPass_record]

/-- Only requests touch the cooldown. -/
theorem cooldown_after {e : Engine} {m : Move} (h : ∀ d trigger now, m ≠ .start d trigger now) :
    (e.after m).cooldown = e.cooldown := by
  cases m with
  | start d trigger now => exact absurd rfl (h d trigger now)
  | goOn path a =>
    obtain ⟨flights, interventions, issued, events, h⟩ := e.goOn_eq path a
    rw [after, h]
  | act id action note =>
    simp only [after, act]
    split <;> rfl
  | schedule d trigger =>
    simp only [after, schedule]
    split <;> rfl
  | _ => rfl

/-- A move changes the record of a path only by being a pass of it. -/
theorem lastPass_after (e : Engine) (m : Move) (path : String) :
    (e.after m).cooldown.lastPass path =
      ((e.pass? path m).map Pass.time).or (e.cooldown.lastPass path) := by
  cases m with
  | start d trigger now =>
    rw [after, lastPass_start, pass?]
    by_cases h : path = d.path ∧ (e.start d trigger now).1 = none
    · rw [if_pos h, if_pos ⟨h.1.symm, h.2⟩]
      rfl
    · rw [if_neg h, if_neg fun h' => h ⟨h'.1.symm, h'.2⟩]
      rfl
  | _ => rw [cooldown_after (by simp)]; rfl

theorem lastPass_run (e : Engine) (path : String) (moves : List Move) :
    (e.run moves).cooldown.lastPass path =
      ((e.passes path moves).getLast?.map Pass.time).or (e.cooldown.lastPass path) := by
  induction moves using List.reverseRecOn with
  | nil => rfl
  | append_singleton moves m ih =>
    rw [run_concat, lastPass_after, ih, passes_concat]
    cases (e.run moves).pass? path m <;> simp

/-! ### Distances -/

/-- A pass comes when the window is over that it finds in force. -/
theorem window_le_of_pass? {e : Engine} {path : String} {m : Move} {p : Pass}
    (h : e.pass? path m = some p) {last : Instant} (hlast : e.cooldown.lastPass path = some last) :
    p.window ≤ p.time.since last := by
  obtain ⟨d, trigger, now, -, rfl, hadmitted, rfl⟩ := pass?_eq_some_iff.1 h
  exact Cooldown.remaining_eq_none_iff.1 (start_of_admitted hadmitted).2.1 last hlast

/-- The window is in force that is set when a pass comes. -/
theorem window_after {e : Engine} {path : String} {m : Move} {p : Pass}
    (h : e.pass? path m = some p) : (e.after m).cooldown.window = p.window := by
  obtain ⟨d, trigger, now, rfl, -, hadmitted, rfl⟩ := pass?_eq_some_iff.1 h
  rw [after, (start_of_admitted hadmitted).2.2]
  rfl

/-- **The cycles of a document keep their distance.** In every run of an engine:

* of two cycles of a path that were let through one after the other, the second came after the window
  that was then in force;
* the cooldown records the last cycle of a path that was let through, and a request cools down only
  when that one is younger than the window;
* a refused request changes the record of no path, and nothing but a cycle of its own that is let
  through changes the record of a path. -/
theorem passes_keep_apart (settings : Settings) (store : FeedbackStore) (ids : Nat → String)
    (clock : Instant) (moves : List Move) :
    let first := fresh settings store ids clock
    let e := first.run moves
    (∀ path, (first.passes path moves).IsChain fun p q => q.window ≤ q.time.since p.time) ∧
    (∀ path, e.cooldown.lastPass path = (first.passes path moves).getLast?.map Pass.time) ∧
    (∀ d trigger now, (e.start d trigger now).1 = some .coolingDown →
      ∃ p, (first.passes d.path moves).getLast? = some p ∧
        now.since p.time < spanOfSeconds e.settings.cooldownSeconds) ∧
    (∀ d trigger now reason, (e.start d trigger now).1 = some reason →
      ∀ path, (e.start d trigger now).2.cooldown.lastPass path = e.cooldown.lastPass path) ∧
    (∀ path m, e.pass? path m = none →
      (e.after m).cooldown.lastPass path = e.cooldown.lastPass path) ∧
    (∀ path m p, e.pass? path m = some p →
      (e.after m).cooldown.lastPass path = some p.time ∧
        (e.after m).cooldown.window = p.window) := by
  intro first e
  have hrecord : ∀ path,
      e.cooldown.lastPass path = (first.passes path moves).getLast?.map Pass.time := by
    intro path
    have hfirst : first.cooldown.lastPass path = none := rfl
    rw [lastPass_run, hfirst, Option.or_none]
  refine ⟨?_, hrecord, ?_, ?_, ?_, ?_⟩
  · intro path
    clear hrecord
    induction moves using List.reverseRecOn with
    | nil => exact .nil
    | append_singleton moves m ih =>
      rw [passes_concat, List.isChain_append]
      refine ⟨ih, by cases (first.run moves).pass? path m <;> simp, ?_⟩
      -- The pass before is the one that the cooldown has recorded.
      intro p hp q hq
      refine window_le_of_pass? (by simpa using hq) ?_
      rw [lastPass_run, Option.mem_def.1 hp]
      rfl
  · intro d trigger now h
    -- Were there no such pass, nothing would be left of the window.
    by_contra hold
    have hleft := (start_of_coolingDown h).2
    rw [Cooldown.remaining_eq_none_iff.2] at hleft
    · cases hleft
    · intro last hlast
      rw [Cooldown.lastPass_setWindow, hrecord] at hlast
      obtain ⟨p, hp, rfl⟩ := Option.map_eq_some_iff.1 hlast
      exact Int.not_lt.1 fun hlt => hold ⟨p, hp, hlt⟩
  · intro d trigger now reason h path
    rw [lastPass_start, if_neg (by simp [h])]
  · intro path m h
    rw [lastPass_after, h]
    rfl
  · intro path m p h
    refine ⟨?_, window_after h⟩
    rw [lastPass_after, h]
    rfl

/-- Of three saves in a minute, the one that comes too early is no pass. A window that is longer by
then counts for the pass to come. -/
theorem two_passes_of_three :
    let d : Document := ⟨"", "text", "a.txt"⟩
    let ids := fun n => String.ofList (List.replicate n 'x')
    let first := fresh .default (.fresh ⟨.empty [], .memory .empty .none⟩) ids ⟨0, 0⟩
    let moves : List Move := [.start d .save ⟨0, 0⟩, .goOn d.path (.ok ""), .start d .save ⟨5, 0⟩,
      .configure { Settings.default with cooldownSeconds := 30 }, .start d .save ⟨40, 0⟩]
    first.passes d.path moves = [⟨⟨0, 0⟩, spanOfSeconds 20⟩, ⟨⟨40, 0⟩, spanOfSeconds 30⟩] ∧
      spanOfSeconds 30 ≤ Instant.since ⟨40, 0⟩ ⟨0, 0⟩ := by
  intro d ids first moves
  have hpasses : first.passes d.path moves =
      [⟨⟨0, 0⟩, spanOfSeconds 20⟩, ⟨⟨40, 0⟩, spanOfSeconds 30⟩] := by decide +kernel
  obtain ⟨hchain, -⟩ := passes_keep_apart .default (.fresh ⟨.empty [], .memory .empty .none⟩) ids
    ⟨0, 0⟩ moves
  have hchain := hchain d.path
  rw [hpasses, List.isChain_pair] at hchain
  exact ⟨hpasses, hchain⟩

end Engine

end CodeCoach
