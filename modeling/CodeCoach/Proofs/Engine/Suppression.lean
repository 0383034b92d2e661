import CodeCoach.Proofs.Engine.Delivery
import CodeCoach.Proofs.FeedbackStore.Learned

/-!
# Suppressed patterns

A suppression holds until the next reset, and each lookup of a cycle goes by the suppressions that are
in force when it is made.  So what a reset lifts in the middle of a cycle is lifted for the issues that
the cycle has still to look up, and for no others.

* `mem_suppressed_after`, `mem_suppressed_run`: nothing but a reset lifts a suppression;
* `suppressed_until_reset`: what nobody asked for brings the pattern up only if it is looked up after a
  reset, and reviews on demand go on bringing it up;
* `marker_between_lookups`: a cycle that starts before a reset and looks up after it.
-/

namespace CodeCoach

theorem Rules.mem_suppressed_after {r : Rules} {key : String} (h : key ∈ r.suppressed)
    (f : Feedback) (occurrences : Nat) : key ∈ (r.after f occurrences).suppressed := by
  simp only [after]
  split
  · exact NameSet.mem_insert.2 (Or.inr h)
  · exact h

theorem FeedbackStore.mem_suppressed_run {s : FeedbackStore} {calls : List Call} {key : String}
    (h : key ∈ s.learning.rules.suppressed) (hcalls : .reset ∉ calls) :
    key ∈ (s.run calls).learning.rules.suppressed := by
  induction calls using List.reverseRecOn with
  | nil => exact h
  | append_singleton calls c ih =>
    rw [List.mem_append, not_or] at hcalls
    have ih := ih hcalls.1
    rw [run_concat]
    cases c with
    | record i action note now => exact Rules.mem_suppressed_after ih _ _
    | reset => simp at hcalls
    | storage other => exact ih

namespace Engine

theorem mem_suppressed_after {e : Engine} {m : Move} {key : String}
    (h : key ∈ e.store.learning.rules.suppressed) (hm : m ≠ .reset) :
    key ∈ (e.after m).store.learning.rules.suppressed := by
  rw [store_after]
  exact FeedbackStore.mem_suppressed_run h fun hreset => hm (eq_reset_of_mem_calls hreset)

theorem mem_suppressed_run {e : Engine} {moves : List Move} {key : String}
    (h : key ∈ e.store.learning.rules.suppressed) (hmoves : .reset ∉ moves) :
    key ∈ (e.run moves).store.learning.rules.suppressed := by
  induction moves generalizing e with
  | nil => exact h
  | cons m moves ih =>
    rw [List.mem_cons, not_or] at hmoves
    exact ih (mem_suppressed_after h (Ne.symm hmoves.1)) hmoves.2

/-- An issue of a pattern that is worth showing is looked up after a reset. -/
theorem reset_mem_of_shows {e : Engine} {key : String}
    (h : key ∈ e.store.learning.rules.suppressed) {moves : List Move} {i : Issue}
    (hkey : i.patternKey = key) (hshows : (e.run moves).store.learning.shows i = true) :
    .reset ∈ moves := by
  by_contra hmoves
  have hhidden : (e.run moves).store.learning.shows i = false := by
    rw [Learning.shows, Rules.shows_eq_false_iff, hkey]
    exact Or.inl (mem_suppressed_run h hmoves)
  rw [hhidden] at hshows
  cases hshows

/-- Where all issues that the frequency allows are brought up, so are those of a pattern. -/
theorem bringsUp_pattern {s : Settings} {issues : List Issue} {list : List Intervention}
    (h : List.Forall₂ (Intervention.BringsUp s.enhance) list (issues.filter s.frequency.allows))
    (key : String) :
    List.Forall₂ (Intervention.BringsUp s.enhance)
      (list.filter fun v => v.context.patternKey = key)
      ((issues.filter fun i => i.patternKey = key).filter s.frequency.allows) := by
  rw [List.filter_comm]
  refine List.rel_filter ?_ h
  intro v i hv
  simp [hv.patternKey]

/-- **What is suppressed stays suppressed until the next reset.** Of a cycle that starts before it and
that nobody asked for, whatever happens while it is in flight: an issue of the pattern that it brings
up is one that it looked up after a reset. A review on demand brings up all issues of the pattern that
the frequency allows, and it delivers unless it is dropped. -/
theorem suppressed_until_reset {e : Engine} {key : String}
    (h : key ∈ e.store.learning.rules.suppressed) {quiet : List Move} (hquiet : .reset ∉ quiet) :
    let later := e.run quiet
    key ∈ later.store.learning.rules.suppressed ∧
    ∀ d trigger now, (later.start d trigger now).1 = none →
      let begun := (later.start d trigger now).2
      (∀ moves list, begun.Delivers d.path moves list →
        (trigger ≠ .onDemand → ∀ v ∈ list, v.context.patternKey = key →
          ∃ before a rest i, moves = before ++ .goOn d.path a :: rest ∧
            begun.Lasts d.path before ∧ (begun.run before).step? d.path = some (.lookUp i) ∧
            v.BringsUp later.settings.enhance i ∧ .reset ∈ before) ∧
        (trigger = .onDemand →
          List.Forall₂ (Intervention.BringsUp later.settings.enhance)
            (list.filter fun v => v.context.patternKey = key)
            (((Review.ofDocument d).filter fun i => i.patternKey = key).filter
              later.settings.frequency.allows))) ∧
      (∀ moves, .abort d.path ∉ moves →
        (later.launch d trigger).stepsLeft ≤ (answersTo d.path moves).length →
          ∃ list, begun.Delivers d.path moves list) := by
  intro later
  have hkey := mem_suppressed_run h hquiet
  refine ⟨hkey, fun d trigger now hstart => ⟨?_, ?_⟩⟩
  · intro moves list hdelivers
    refine ⟨fun htrigger v hv hpattern => ?_, ?_⟩
    · obtain ⟨before, a, rest, i, hmoves, hlasts, hstep, hbrings, hshows⟩ :=
        lookedUp_of_delivers hstart htrigger hdelivers hv
      refine ⟨before, a, rest, i, hmoves, hlasts, hstep, hbrings, ?_⟩
      have hbegun : key ∈ (later.start d trigger now).2.store.learning.rules.suppressed := by
        rw [store_start]
        exact hkey
      exact reset_mem_of_shows hbegun (hbrings.patternKey.symm.trans hpattern) hshows
    · rintro rfl
      have hbrings := bringsUp_of_delivers hstart hdelivers
      rw [selectBy_onDemand] at hbrings
      exact bringsUp_pattern hbrings key
  · intro moves habort hsteps
    exact exists_delivers (flight?_launch hstart) habort hsteps

/-- A marker that was dismissed in three reviews is brought up by a fourth one, but not when the
document is saved. -/
theorem marker_until_reset :
    let d : Document := ⟨"// TODO: x", "text", "a.txt"⟩
    let key := "code-smell:// TODO: x"
    let ids := fun n => String.ofList (List.replicate n 'x')
    let e := (fresh .default (.fresh ⟨.empty [], .memory .empty .none⟩) ids ⟨0, 0⟩).run
      [.start d .onDemand ⟨0, 0⟩, .goOn d.path (.ok ""), .act "" .dismissed none,
        .start d .onDemand ⟨20, 0⟩, .goOn d.path (.ok ""), .act "x" .dismissed none,
        .start d .onDemand ⟨40, 0⟩, .goOn d.path (.ok ""), .act "xx" .dismissed none]
    let later := e.run [.elapse 1000]
    key ∈ e.store.learning.rules.suppressed ∧
    (later.start d .save ⟨60, 0⟩).1 = none ∧ (later.start d .onDemand ⟨60, 0⟩).1 = none ∧
    (∀ moves list, .reset ∉ moves → (later.start d .save ⟨60, 0⟩).2.Delivers d.path moves list →
      ∀ v ∈ list, v.context.patternKey ≠ key) ∧
    ∃ list, (later.start d .onDemand ⟨60, 0⟩).2.Delivers d.path [.goOn d.path (.ok "")] list ∧
      ∃ v ∈ list, v.context.patternKey = key := by
  intro d key ids e later
  have hkey : key ∈ e.store.learning.rules.suppressed :=
    NameSet.contains_iff.1 (by decide +kernel)
  have hsave : (later.start d .save ⟨60, 0⟩).1 = none := by decide +kernel
  have hreview : (later.start d .onDemand ⟨60, 0⟩).1 = none := by decide +kernel
  have hquiet : Move.reset ∉ [.elapse 1000] := by simp
  obtain ⟨-, hcycles⟩ := suppressed_until_reset hkey hquiet
  refine ⟨hkey, hsave, hreview, ?_, ?_⟩
  · intro moves list hmoves hdelivers v hv hpattern
    obtain ⟨before, a, rest, i, rfl, -, -, -, hreset⟩ :=
      ((hcycles d .save ⟨60, 0⟩ hsave).1 moves list hdelivers).1 (by decide) v hv hpattern
    exact hmoves (List.mem_append_left _ hreset)
  · obtain ⟨hbrings, hends⟩ := hcycles d .onDemand ⟨60, 0⟩ hreview
    obtain ⟨list, hdelivers⟩ := hends [.goOn d.path (.ok "")] (by simp) (by decide +kernel)
    refine ⟨list, hdelivers, ?_⟩
    have hlength := ((hbrings _ list hdelivers).2 rfl).length_eq
    have hone : (((Review.ofDocument d).filter fun i => i.patternKey = key).filter
        later.settings.frequency.allows).length = 1 := by decide +kernel
    rw [hone] at hlength
    obtain ⟨v, hv⟩ := List.exists_mem_of_length_pos (hlength ▸ Nat.one_pos)
    obtain ⟨hmem, hv⟩ := List.mem_filter.1 hv
    exact ⟨v, hmem, by simpa using hv⟩

/-- The suppressed marker is delivered by a cycle for the saved document that started before a reset
and looked the marker up after it. And a review on demand that has to cool down does not bring the
marker up. -/
theorem marker_between_lookups :
    let d : Document := ⟨"// TODO: x", "text", "a.txt"⟩
    let key := "code-smell:// TODO: x"
    let ids := fun n => String.ofList (List.replicate n 'x')
    let e := (fresh .default (.fresh ⟨.empty [], .memory .empty .none⟩) ids ⟨0, 0⟩).run
      [.start d .onDemand ⟨0, 0⟩, .goOn d.path (.ok ""), .act "" .dismissed none,
        .start d .onDemand ⟨20, 0⟩, .goOn d.path (.ok ""), .act "x" .dismissed none,
        .start d .onDemand ⟨40, 0⟩, .goOn d.path (.ok ""), .act "xx" .dismissed none]
    let begun := (e.start d .save ⟨60, 0⟩).2
    let moves : List Move := [.reset, .goOn d.path (.ok ""), .goOn d.path (.ok ""),
      .goOn d.path (.ok "")]
    key ∈ e.store.learning.rules.suppressed ∧ (e.start d .save ⟨60, 0⟩).1 = none ∧
    (∃ list, begun.Delivers d.path moves list ∧
      list.map (fun v => v.context.patternKey) = [key]) ∧
    (e.start d .onDemand ⟨50, 0⟩).1 = some .coolingDown := by
  intro d key ids e begun moves
  have hstart : (e.start d .save ⟨60, 0⟩).1 = none := by decide +kernel
  have habort : .abort d.path ∉ moves := by simp [moves]
  obtain ⟨list, hlist⟩ := exists_delivers (flight?_launch hstart) habort (by decide +kernel)
  refine ⟨NameSet.contains_iff.1 (by decide +kernel), hstart, ⟨list, hlist, ?_⟩, by decide +kernel⟩
  rw [map_patternKey_of_bringsUp (bringsUp_of_delivers hstart hlist)]
  decide +kernel

end Engine

end CodeCoach
