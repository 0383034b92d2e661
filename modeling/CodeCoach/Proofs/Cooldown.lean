import CodeCoach.Cooldown
import CodeCoach.Proofs.Instant.Text
import Mathlib.Algebra.Ring.Int.Defs
import Mathlib.Data.List.Basic
import Mathlib.Data.List.Induction
import Mathlib.Tactic.Ring

/-!
# When a key may be reviewed again

A cooldown is used by asking for reviews, by forgetting keys and by changing the window.  What a key
has to wait for can be told from these calls and from which of them were let through.

* `Call`, `run`, the calls on a cooldown;
* `IsLastPass`, the last time that a key was let through since it was forgotten, and `secondsSet`, the
  window that was set last; `lastPass_run_iff` and `window_run`: the cooldown has recorded just these;
* `Instant.natAbs_since_lt`: no two instants are a span apart that is too long;
* `alike_run_filter`: calls on other keys make no difference;
* `waits_out_window`: when a key is let through, and for how long it is refused;
* `rest_of_leapSecond`: what is left of a window is not always what it seems.
-/

namespace CodeCoach

/-! ### Spans of time -/

namespace Instant

variable {t s r : Instant}

theorem leapSecond_eq_zero (ht : t.isLeap = false) (hs : s.isLeap = false) :
    t.leapSecond s = 0 := by
  simp [leapSecond, ht, hs]

theorem natAbs_leapSecond_le (t s : Instant) : (t.leapSecond s).natAbs ≤ 1 := by
  unfold leapSecond
  split
  · decide
  · split <;> decide

/-- Spans add up where no leap second counts. -/
theorem since_add_since (ht : t.isLeap = false) (hs : s.isLeap = false) (hr : r.isLeap = false) :
    t.since s + s.since r = t.since r := by
  simp only [since, leapSecond_eq_zero ht hs, leapSecond_eq_zero hs hr, leapSecond_eq_zero ht hr]
  ring

/-- The instants of the range are so close to each other that spans have room for much more. -/
theorem natAbs_since_lt (ht : t.Proper) (hs : s.Proper) : (t.since s).natAbs < longestSpan := by
  obtain ⟨hfirst, hlast⟩ := inRange_iff.1 ht.inRange
  obtain ⟨hfirst', hlast'⟩ := inRange_iff.1 hs.inRange
  have htnano := ht.nano
  have hsnano := hs.nano
  have hleap := natAbs_leapSecond_le t s
  simp only [firstSecond, lastSecond, nanosPerSecond] at *
  simp only [since, nanosPerSecond, longestSpan]
  omega

end Instant

theorem spanOfSeconds_nonneg (seconds : Nat) : 0 ≤ spanOfSeconds seconds := by
  unfold spanOfSeconds
  split
  · exact Int.mul_nonneg (Int.natCast_nonneg _) (Int.natCast_nonneg _)
  · decide

theorem spanOfSeconds_le (seconds : Nat) : spanOfSeconds seconds ≤ longestSpan := by
  unfold spanOfSeconds
  split
  · rename_i h
    simp only [longestSeconds, longestSpan, nanosPerSecond] at *
    omega
  · exact Int.le_refl _

theorem spanOfSeconds_of_lt {seconds : Nat} (h : longestSeconds < seconds) :
    spanOfSeconds seconds = longestSpan := if_neg (Nat.not_le.2 h)

namespace Cooldown

/-! ### What is left of a window -/

theorem leftOf_eq_none_iff {window elapsed : Int} :
    leftOf window elapsed = none ↔ window ≤ elapsed := by
  unfold leftOf
  split
  · next h => simpa using h
  · next h => simpa using h

/-- A key may be reviewed unless its last review is younger than the window. -/
theorem remaining_eq_none_iff {c : Cooldown} {key : String} {now : Instant} :
    c.remaining key now = none ↔
      ∀ last, c.lastPass key = some last → c.window ≤ now.since last := by
  unfold remaining
  cases c.lastPass key with
  | none => simp
  | some last => simp [leftOf_eq_none_iff]

theorem leftOf_of_le {window elapsed d : Int} (h : leftOf window elapsed = some d)
    (hspan : window - elapsed ≤ longestSpan) : d = window - elapsed := by
  unfold leftOf at h
  split at h
  · simpa [hspan] using h.symm
  · cases h

/-- What is left of a window is a span, and not an empty one. A window that counts whole because the
rest would be too long is not empty, since no time that has passed is as long as the longest span. -/
theorem leftOf_pos {window elapsed d : Int} (h : leftOf window elapsed = some d)
    (hwindow : window ≤ longestSpan) (helapsed : elapsed.natAbs < longestSpan) :
    0 < d ∧ d ≤ longestSpan := by
  unfold leftOf at h
  split at h
  · split at h <;> cases h <;> omega
  · cases h

theorem tryBegin_fst_iff {c : Cooldown} {key : String} {now : Instant} :
    (c.tryBegin key now).1 = true ↔ c.remaining key now = none := by
  rw [tryBegin_fst, Option.isNone_iff_eq_none]

theorem tryBegin_of_fst {c : Cooldown} {key : String} {now : Instant}
    (h : (c.tryBegin key now).1 = true) : c.tryBegin key now = (true, c.record key now) := by
  rw [tryBegin_fst_iff] at h
  rw [tryBegin, h]
  rfl

/-- A review that is refused changes nothing. -/
theorem tryBegin_of_refused {c : Cooldown} {key : String} {now : Instant}
    (h : (c.tryBegin key now).1 = false) : (c.tryBegin key now).2 = c := by
  rw [tryBegin_fst, Option.isNone_eq_false_iff] at h
  rw [tryBegin_of_remaining h]

/-! ### Calls -/

/-- A call on a cooldown. -/
inductive Call
  | tryBegin (key : String) (now : Instant)
  | clear (key : String)
  | setWindow (seconds : Nat)
  deriving DecidableEq, Repr

/-- Whether a call is about the key or about all keys. -/
def Call.concerns (key : String) : Call → Bool
  | tryBegin k _ | clear k => k == key
  | setWindow _ => true

/-- The window that a call sets. -/
def Call.seconds? : Call → Option Nat
  | setWindow seconds => some seconds
  | _ => none

/-- The cooldown after a call. -/
def after (c : Cooldown) : Call → Cooldown
  | .tryBegin key now => (c.tryBegin key now).2
  | .clear key => c.clear key
  | .setWindow seconds => c.setWindow seconds

/-- The cooldown after some calls. -/
def run (c : Cooldown) (calls : List Call) : Cooldown := calls.foldl after c

/-- The window that was set last, in seconds; `seconds` is that of the beginning. -/
def secondsSet (seconds : Nat) (calls : List Call) : Nat :=
  (calls.filterMap Call.seconds?).getLast?.getD seconds

/-- At `time` the key was let through, and since then it was neither forgotten nor let through
again. -/
def IsLastPass (c : Cooldown) (calls : List Call) (key : String) (time : Instant) : Prop :=
  ∃ before later, calls = before ++ .tryBegin key time :: later ∧
    ((c.run before).tryBegin key time).1 = true ∧ .clear key ∉ later ∧
    ∀ between now rest, later = between ++ .tryBegin key now :: rest →
      ((c.run (before ++ .tryBegin key time :: between)).tryBegin key now).1 = false

variable {c : Cooldown} {calls : List Call} {call : Call} {key : String} {time : Instant}

@[simp] theorem run_nil : c.run [] = c := rfl

theorem run_concat (c : Cooldown) (calls : List Call) (call : Call) :
    c.run (calls ++ [call]) = (c.run calls).after call := by
  rw [run, List.foldl_append]
  rfl

/-! ### What is recorded -/

/-- A call changes the record of a key only by letting it through or by forgetting it. -/
theorem lastPass_after_eq_some_iff : (c.after call).lastPass key = some time ↔
    (call = .tryBegin key time ∧ (c.tryBegin key time).1 = true) ∨
      (c.lastPass key = some time ∧ call ≠ .clear key ∧
        ∀ now, call = .tryBegin key now → (c.tryBegin key now).1 = false) := by
  cases call with
  | tryBegin k now =>
    cases hadmitted : (c.tryBegin k now).1 with
    | false =>
      have hno : ¬(k = key ∧ now = time ∧ (c.tryBegin key time).1 = true) := by
        rintro ⟨rfl, rfl, h⟩
        rw [hadmitted] at h
        cases h
      rw [after, tryBegin_of_refused hadmitted]
      simp only [Call.tryBegin.injEq, and_assoc, hno, false_or]
      refine ⟨fun h => ⟨h, by simp, ?_⟩, fun h => h.1⟩
      rintro _ ⟨rfl, rfl⟩
      exact hadmitted
    | true =>
      rw [after, tryBegin_of_fst hadmitted, lastPass_record]
      by_cases hk : key = k
      · subst k
        simp only [if_true, Option.some.injEq, Call.tryBegin.injEq, true_and]
        constructor
        · rintro rfl
          exact .inl ⟨rfl, hadmitted⟩
        · rintro (⟨rfl, -⟩ | ⟨-, -, hrefused⟩)
          · rfl
          · have := hrefused now rfl
            rw [hadmitted] at this
            cases this
      · have hk' : k ≠ key := fun h => hk h.symm
        simp [hk, hk']
  | clear k =>
    rw [after, lastPass_clear]
    by_cases hk : key = k
    · simp [hk]
    · have hk' : k ≠ key := fun h => hk h.symm
      simp [hk, hk']
  | setWindow seconds => simp [after]

/-- A call changes the window only by setting it. -/
theorem window_after (c : Cooldown) (call : Call) :
    (c.after call).window = (call.seconds?.map spanOfSeconds).getD c.window := by
  cases call with
  | tryBegin k now =>
    rw [after, tryBegin]
    split <;> rfl
  | clear k => rfl
  | setWindow seconds => rfl

/-- One more call keeps the last time that a key was let through, or is that time. -/
theorem isLastPass_concat_iff : IsLastPass c (calls ++ [call]) key time ↔
    (call = .tryBegin key time ∧ ((c.run calls).tryBegin key time).1 = true) ∨
      (IsLastPass c calls key time ∧ call ≠ .clear key ∧
        ∀ now, call = .tryBegin key now → ((c.run calls).tryBegin key now).1 = false) := by
  constructor
  · rintro ⟨before, later, hsplit, hadmitted, hclear, hrefused⟩
    rcases List.eq_nil_or_concat' later with rfl | ⟨later, last, rfl⟩
    · obtain ⟨rfl, hcall⟩ := List.append_inj' hsplit rfl
      obtain rfl := List.singleton_inj.1 hcall
      exact .inl ⟨rfl, hadmitted⟩
    · rw [← List.cons_append, ← List.append_assoc] at hsplit
      obtain ⟨rfl, hcall⟩ := List.append_inj' hsplit rfl
      obtain rfl := List.singleton_inj.1 hcall
      rw [List.mem_append, not_or] at hclear
      refine .inr ⟨⟨before, later, rfl, hadmitted, hclear.1, ?_⟩, ?_, ?_⟩
      · rintro between now rest rfl
        exact hrefused between now (rest ++ [call]) (by simp)
      · rintro rfl
        exact hclear.2 (List.mem_singleton_self _)
      · rintro now rfl
        exact hrefused later now [] rfl
  · rintro (⟨rfl, hadmitted⟩ | ⟨⟨before, later, rfl, hadmitted, hclear, hrefused⟩, hcall, hrefusal⟩)
    · exact ⟨calls, [], rfl, hadmitted, List.not_mem_nil, by simp⟩
    · refine ⟨before, later ++ [call], by simp, hadmitted, by simp [hclear, Ne.symm hcall], ?_⟩
      intro between now rest hsplit
      rcases List.eq_nil_or_concat' rest with rfl | ⟨rest, last, rfl⟩
      · obtain ⟨rfl, hlast⟩ := List.append_inj' hsplit rfl
        exact hrefusal now (List.singleton_inj.1 hlast)
      · rw [← List.cons_append, ← List.append_assoc] at hsplit
        exact hrefused between now rest (List.append_inj' hsplit rfl).1

/-- The cooldown has recorded when a key was let through last. -/
theorem lastPass_run_iff (seconds : Nat) : ((ofSeconds seconds).run calls).lastPass key = some time ↔
    IsLastPass (ofSeconds seconds) calls key time := by
  induction calls using List.reverseRecOn with
  | nil =>
    constructor
    · exact fun h => nomatch h
    · rintro ⟨before, later, h, -⟩
      exact absurd h.symm (by simp)
  | append_singleton calls call ih =>
    rw [run_concat, lastPass_after_eq_some_iff, ih, isLastPass_concat_iff]

/-- The window is the one that was set last. -/
theorem window_run (seconds : Nat) :
    ((ofSeconds seconds).run calls).window = spanOfSeconds (secondsSet seconds calls) := by
  induction calls using List.reverseRecOn with
  | nil => rfl
  | append_singleton calls call ih =>
    have hone : List.filterMap Call.seconds? [call] = call.seconds?.toList := by
      cases h : call.seconds? <;> simp [h]
    rw [run_concat, window_after, ih, secondsSet, secondsSet, List.filterMap_append,
      List.getLast?_append, hone]
    cases call.seconds? <;> rfl

/-! ### Calls on other keys -/

/-- Two cooldowns that differ at most in what they have recorded of other keys. -/
structure Alike (key : String) (c c' : Cooldown) : Prop where
  window : c.window = c'.window
  lastPass : c.lastPass key = c'.lastPass key

variable {c' : Cooldown}

theorem Alike.trans {c'' : Cooldown} (h : Alike key c c') (h' : Alike key c' c'') :
    Alike key c c'' :=
  ⟨h.window.trans h'.window, h.lastPass.trans h'.lastPass⟩

theorem Alike.remaining (h : Alike key c c') (now : Instant) :
    c.remaining key now = c'.remaining key now := by
  rw [Cooldown.remaining, Cooldown.remaining, h.window, h.lastPass]

theorem Alike.tryBegin_fst (h : Alike key c c') (now : Instant) :
    (c.tryBegin key now).1 = (c'.tryBegin key now).1 := by
  rw [Cooldown.tryBegin_fst, Cooldown.tryBegin_fst, h.remaining]

theorem Alike.after (h : Alike key c c') (call : Call) : Alike key (c.after call) (c'.after call) where
  window := by rw [window_after, window_after, h.window]
  lastPass := Option.ext fun time => by
    rw [lastPass_after_eq_some_iff, lastPass_after_eq_some_iff, h.lastPass]
    simp only [h.tryBegin_fst]

/-- A call on another key changes nothing for a key. -/
theorem alike_after (h : call.concerns key = false) : Alike key c (c.after call) where
  window := by
    rw [window_after]
    cases call with
    | setWindow seconds => cases h
    | _ => rfl
  lastPass := Option.ext fun time => by
    rw [lastPass_after_eq_some_iff]
    have hother : (∀ now, call ≠ .tryBegin key now) ∧ call ≠ .clear key := by
      constructor
      · rintro now rfl
        simp [Call.concerns] at h
      · rintro rfl
        simp [Call.concerns] at h
    simp [hother]

/-- Calls on other keys make no difference to a key. -/
theorem alike_run_filter (c : Cooldown) (calls : List Call) (key : String) :
    Alike key (c.run (calls.filter (Call.concerns key))) (c.run calls) := by
  induction calls using List.reverseRecOn with
  | nil => exact ⟨rfl, rfl⟩
  | append_singleton calls call ih =>
    rw [run_concat, List.filter_append, List.filter_singleton]
    cases hcall : call.concerns key with
    | true =>
      rw [cond_true, run_concat]
      exact ih.after call
    | false =>
      rw [cond_false, List.append_nil]
      exact ih.trans (alike_after hcall)

/-! ### The wait of a key -/

theorem proper_of_isLastPass (hcalls : ∀ key now, .tryBegin key now ∈ calls → now.Proper)
    (h : IsLastPass c calls key time) : time.Proper := by
  obtain ⟨before, later, rfl, -⟩ := h
  exact hcalls key time (by simp)

/-- **A key waits for the window to pass.** After any calls on a cooldown, in which clocks may have
been set back and windows may be of any length:

* a key is let through exactly when nothing of its window is left, that is when it has not been let
  through since it was forgotten, or when the window that is set now has passed since then;
* what is left is a positive span. Where the rest of the window is a span, it is this rest;
* the key is refused before this rest has passed and let through as soon as it has. Here the three
  times that matter are in no leap second, which counts in a span that begins with it and in no other;
* a window that is too long for a span counts as the longest one, and it refuses a key that has been
  let through at every instant;
* no span of time on the way is too long;
* a refusal changes nothing, and calls on other keys make no difference. -/
theorem waits_out_window (seconds : Nat) (calls : List Call)
    (hcalls : ∀ key now, .tryBegin key now ∈ calls → now.Proper) (key : String) (now : Instant)
    (hnow : now.Proper) :
    let first := ofSeconds seconds
    let c := first.run calls
    let window := spanOfSeconds (secondsSet seconds calls)
    ((c.tryBegin key now).1 = true ↔ c.remaining key now = none) ∧
    (c.remaining key now = none ↔
      ∀ last, IsLastPass first calls key last → window ≤ now.since last) ∧
    (∀ d, c.remaining key now = some d → 0 < d ∧
      ∃ last, IsLastPass first calls key last ∧ (window - now.since last ≤ longestSpan →
        d = window - now.since last ∧ (last.isLeap = false → now.isLeap = false →
          ∀ t : Instant, t.isLeap = false → ((c.tryBegin key t).1 = true ↔ d ≤ t.since now)))) ∧
    (longestSeconds < secondsSet seconds calls → (∃ last, IsLastPass first calls key last) →
      (c.tryBegin key now).1 = false) ∧
    (0 ≤ window ∧ window ≤ longestSpan ∧ (∀ d, c.remaining key now = some d → d ≤ longestSpan) ∧
      ∀ last, IsLastPass first calls key last → (now.since last).natAbs ≤ longestSpan) ∧
    ((c.tryBegin key now).1 = false → (c.tryBegin key now).2 = c) ∧
    ((first.run (calls.filter (Call.concerns key))).tryBegin key now).1 = (c.tryBegin key now).1 ∧
    (first.run (calls.filter (Call.concerns key))).remaining key now = c.remaining key now := by
  intro first c window
  have hwindow : c.window = window := window_run seconds
  have hrecord (last : Instant) : c.lastPass key = some last ↔ IsLastPass first calls key last :=
    lastPass_run_iff seconds
  have hnone (t : Instant) : c.remaining key t = none ↔
      ∀ last, IsLastPass first calls key last → window ≤ t.since last := by
    rw [remaining_eq_none_iff, hwindow]
    exact forall_congr' fun last => by rw [hrecord]
  have hspan (last : Instant) (h : IsLastPass first calls key last) :
      (now.since last).natAbs < longestSpan :=
    Instant.natAbs_since_lt hnow (proper_of_isLastPass hcalls h)
  have hleft (d : Int) (h : c.remaining key now = some d) : ∃ last,
      IsLastPass first calls key last ∧ leftOf window (now.since last) = some d := by
    obtain ⟨last, hlast, hd⟩ := Option.bind_eq_some_iff.1 h
    exact ⟨last, (hrecord last).1 hlast, hwindow ▸ hd⟩
  have hbounds (d : Int) (h : c.remaining key now = some d) : 0 < d ∧ d ≤ longestSpan := by
    obtain ⟨last, hlast, hd⟩ := hleft d h
    exact leftOf_pos hd (spanOfSeconds_le _) (hspan last hlast)
  refine ⟨tryBegin_fst_iff, hnone now, ?_, ?_, ?_, tryBegin_of_refused,
    (alike_run_filter first calls key).tryBegin_fst now,
    (alike_run_filter first calls key).remaining now⟩
  · intro d h
    obtain ⟨last, hlast, hd⟩ := hleft d h
    refine ⟨(hbounds d h).1, last, hlast, fun hrest => ?_⟩
    obtain rfl := leftOf_of_le hd hrest
    refine ⟨rfl, fun hlastLeap hnowLeap t htLeap => ?_⟩
    -- The last time that the key was let through is the only one.
    rw [tryBegin_fst_iff, hnone]
    have hsum := Instant.since_add_since htLeap hnowLeap hlastLeap
    constructor
    · intro hpassed
      have := hpassed last hlast
      omega
    · intro hpassed last' hlast'
      obtain rfl := Option.some.inj (((hrecord last).2 hlast).symm.trans ((hrecord last').2 hlast'))
      omega
  · rintro hlong ⟨last, hlast⟩
    have hlongest : window = longestSpan := spanOfSeconds_of_lt hlong
    have hlt := hspan last hlast
    rw [tryBegin_fst, Option.isNone_eq_false_iff, Option.isSome_iff_ne_none, ne_eq, hnone]
    intro hpassed
    have := hpassed last hlast
    omega
  · exact ⟨spanOfSeconds_nonneg _, spanOfSeconds_le _, fun d h => (hbounds d h).2,
      fun last h => Int.le_of_lt (hspan last h)⟩

/-- A key that was refused waits for as long as before, and a longer window that is set by then counts
from when the key was let through. -/
theorem waits_out_longer_window :
    let calls : List Call := [.tryBegin "a" ⟨0, 0⟩, .tryBegin "b" ⟨7, 0⟩, .tryBegin "a" ⟨9, 0⟩,
      .clear "b", .setWindow 30]
    let c := (ofSeconds 20).run calls
    c.remaining "a" ⟨10, 500⟩ = some 19999999500 ∧
      (c.tryBegin "a" ⟨29, 999999999⟩).1 = false ∧ (c.tryBegin "a" ⟨30, 0⟩).1 = true := by
  intro calls c
  have hcalls : ∀ key now, .tryBegin key now ∈ calls → now.Proper := by
    intro key now h
    simp only [calls, List.mem_cons, Call.tryBegin.injEq, reduceCtorEq, List.not_mem_nil, or_false] at h
    rcases h with ⟨-, rfl⟩ | ⟨-, rfl⟩ | ⟨-, rfl⟩ <;> exact ⟨by decide, .inl (by decide)⟩
  have hleft : c.remaining "a" ⟨10, 500⟩ = some 19999999500 := by decide +kernel
  have hrecord : c.lastPass "a" = some ⟨0, 0⟩ := by decide +kernel
  obtain ⟨-, -, hwait, -⟩ :=
    waits_out_window 20 calls hcalls "a" ⟨10, 500⟩ ⟨by decide, .inl (by decide)⟩
  obtain ⟨-, last, hlast, hrest⟩ := hwait _ hleft
  obtain rfl := Option.some.inj (hrecord.symm.trans ((lastPass_run_iff 20).2 hlast))
  obtain ⟨-, hbegins⟩ := hrest (by decide)
  have hbegins := hbegins (by decide) (by decide)
  exact ⟨hleft, Bool.eq_false_iff.2 fun h => absurd ((hbegins _ (by decide)).1 h) (by decide),
    (hbegins _ (by decide)).2 (by decide)⟩

/-- A key that was let through two seconds before a leap second is told in it that a second is left,
but it is still refused after the leap second, when a second has passed. And of a window that is too
long for a span, the rest is not told as it is, though it would be a span. -/
theorem rest_of_leapSecond :
    let before : Instant := ⟨10798, 0⟩
    let leap : Instant := ⟨10799, 1000000000⟩
    let later : Instant := ⟨10800, 0⟩
    let c := (ofSeconds 3).run [.tryBegin "a" before]
    let long := (ofSeconds 9223372036854776).run [.tryBegin "a" ⟨0, 0⟩]
    let rest : Int := 9223372036854776 * nanosPerSecond - Instant.since ⟨1, 0⟩ ⟨0, 0⟩
    (before.Proper ∧ leap.Proper ∧ later.Proper ∧ c.remaining "a" leap = some 1000000000 ∧
      later.since leap = 1000000000 ∧ (c.tryBegin "a" later).1 = false) ∧
    rest ≤ longestSpan ∧ (long.remaining "a" ⟨1, 0⟩).isSome ∧
      long.remaining "a" ⟨1, 0⟩ ≠ some rest := by
  intro before leap later c long rest
  exact ⟨⟨⟨by decide, .inl (by decide)⟩, ⟨by decide, .inr (by decide)⟩, ⟨by decide, .inl (by decide)⟩,
    by decide +kernel, by decide +kernel, by decide +kernel⟩, by decide +kernel, by decide +kernel,
    by decide +kernel⟩

end Cooldown

end CodeCoach
