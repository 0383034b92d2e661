import CodeCoach.Proofs.Engine.Events
import CodeCoach.Proofs.Engine.InFlight
import CodeCoach.Proofs.Engine.Passes

/-!
# Cycles that are dropped

A cycle delivers everything at its last step and nothing before. If it is dropped, at whatever
question, little is left of it.

* `Engine.Spares`, what a step of a cycle leaves alone;
* `spares_start`, `spares_goOn`, `spares_abort`: every step but a delivery is of that kind;
* `dropped_leaves_no_trace`, what holds of a cycle from its start until it is dropped.
-/

namespace CodeCoach.Engine

/-- What is told of the next step of a cycle with an answer: a question that fails is a warning. -/
def failures (e : Engine) (path : String) (a : Answer) : List Event :=
  match e.step? path with
  | some (.ask _) => answerEvents a
  | _ => []

/-- The engine is the same as before but for its flights, its cooldown and what was told last. The
flights of other paths are the same, too. -/
structure Spares (e e' : Engine) (path : String) (told : List Event) : Prop where
  eq : e' =
    { e with cooldown := e'.cooldown, flights := e'.flights, events := e.events ++ told }
  others : ∀ other, other ≠ path → e'.flight? other = e.flight? other

theorem Spares.phase {e e' : Engine} {path : String} {told : List Event}
    (h : Spares e e' path told) {other : String} (hne : other ≠ path) :
    e'.phase other = e.phase other :=
  phase_congr (h.others other hne)

theorem spares_start {e : Engine} {d : Document} {trigger : Trigger} {now : Instant}
    (h : (e.start d trigger now).1 = none) : Spares e (e.start d trigger now).2 d.path [] := by
  constructor
  · rw [(start_of_admitted h).2.2, List.append_nil]
  · intro other hne
    rw [flight?_of_admitted h, if_neg hne]

/-- A step that delivers nothing tells of failures and touches no flight but its own. -/
theorem spares_goOn {e : Engine} {path : String} {f : Flight} (hf : e.flight? path = some f)
    (hn : f.next ≠ .deliver) (a : Answer) :
    Spares e (e.goOn path a) path (e.failures path a) ∧
      (e.goOn path a).cooldown = e.cooldown := by
  have hothers : ∀ other, other ≠ path → (e.goOn path a).flight? other = e.flight? other := by
    intro other hne
    rw [flight?_goOn, if_neg hne]
  have hstep : e.step? path = some f.next := by rw [step?, hf]; rfl
  cases hnext : f.next with
  | lookUp i =>
    rw [hnext] at hstep
    have hgoOn : e.goOn path a = e.lookUp path := by rw [goOn, hstep]
    exact ⟨⟨by simp [hgoOn, failures, hstep, lookUp, updateFlight], hothers⟩, by rw [hgoOn]; rfl⟩
  | ask q =>
    rw [hnext] at hstep
    have hgoOn : e.goOn path a = e.answer path a := by rw [goOn, hstep]
    exact ⟨⟨by simp [hgoOn, failures, hstep, answer, publish, updateFlight], hothers⟩,
      by rw [hgoOn]; rfl⟩
  | deliver => exact absurd hnext hn

/-- The window of the cooldown does not matter to a request, which sets it anew. -/
theorem start_fst_of_window (e : Engine) (window : Int) (d : Document) (trigger : Trigger)
    (now : Instant) :
    (({ e with cooldown := { e.cooldown with window := window } } : Engine).start d trigger now).1 =
      (e.start d trigger now).1 := by
  have hflight : ({ e with cooldown := { e.cooldown with window := window } } : Engine).flight?
      d.path = e.flight? d.path := rfl
  have hpass : ({ e with cooldown := { e.cooldown with window := window } } : Engine).passCooldown
      d.path now = e.passCooldown d.path now := rfl
  simp only [start, hflight, hpass]
  split
  · rfl
  · split
    · rfl
    · rcases e.passCooldown d.path now with ⟨_ | _, e'⟩ <;> rfl

theorem spares_abort (e : Engine) (path : String) :
    Spares e (e.abort path) path [] ∧ (e.abort path).cooldown = e.cooldown := by
  refine ⟨⟨?_, ?_⟩, rfl⟩
  · simp [abort, dropFlight]
  · intro other hne
    rw [abort, flight?_dropFlight, if_neg hne]

/-- Of two places in a list, one comes first, or they are the same. -/
theorem split_cases {β : Type} {l r before after : List β} {b c : β}
    (h : l ++ b :: r = before ++ c :: after) :
    (∃ between, l = before ++ c :: between) ∨ (l = before ∧ b = c) ∨
      ∃ between, before = l ++ b :: between ∧ r = between ++ c :: after := by
  rcases List.append_eq_append_iff.1 h with ⟨between, hbefore, hrest⟩ | ⟨between, hl, hrest⟩
  · cases between with
    | nil => exact Or.inr (Or.inl ⟨by simp [hbefore], (List.cons.inj hrest).1⟩)
    | cons first between =>
      obtain ⟨rfl, hr⟩ := List.cons.inj hrest
      exact Or.inr (Or.inr ⟨between, hbefore, hr⟩)
  · cases between with
    | nil => exact Or.inr (Or.inl ⟨by simp [hl], (List.cons.inj hrest).1.symm⟩)
    | cons first between =>
      obtain ⟨rfl, -⟩ := List.cons.inj hrest
      exact Or.inl ⟨between, hl⟩

/-- A cycle that was dropped delivers nothing in the course of any moves. -/
theorem not_delivers_of_dropped {e : Engine} {path : String} {moves : List Move}
    (hlasts : e.Lasts path moves) (more : List Move) (list : List Intervention) :
    ¬ e.Delivers path (moves ++ .abort path :: more) list := by
  rintro ⟨before, a, after, heq, hbefore, hsettle⟩
  have hends : (e.run before).Ends (.goOn path a) path := Or.inr ⟨a, rfl, by simp [hsettle]⟩
  -- The delivery would come before the drop, where the cycle lasts, or after it, where it is over.
  rcases split_cases heq with ⟨between, rfl⟩ | ⟨-, hmove⟩ | ⟨between, rfl, -⟩
  · exact (lasts_append.1 hlasts).2.1 hends
  · cases hmove
  · exact (lasts_append.1 hbefore).2.1 (Or.inl rfl)

/-- What a move delivers of a path is delivered by a cycle in flight. -/
theorem exists_inFlight_of_settle {e : Engine} {path : String} (h : e.flight? path = none)
    {moves : List Move} {list : List Intervention}
    (hsettle : ((e.run moves).settle path).1 = some list) :
    ∃ began, e.InFlight moves path began := by
  obtain ⟨f, hf, -, -⟩ := settle_fst_eq_some_iff.1 hsettle
  rcases inFlight_run_of_free h moves with ⟨hfree, -⟩ | ⟨-, began, hiff⟩
  · rw [hf] at hfree
    cases hfree
  · exact ⟨began, (hiff began).2 rfl⟩

/-- **A cycle that is dropped leaves no trace** but that its document has to cool down and that its
questions that failed were told. Whatever else happens until it is dropped:

* its start, each of its steps and the drop spare the interventions, the feedback, the storage, the
  timers and the flights of other paths, and of the steps, only questions that fail are told;
* only its start changes the cooldown: it records its path and sets the window, which does not matter
  since every request sets it anew;
* then its path is idle, so that no request for it is busy;
* it never delivers, and whatever is told of new interventions, then or later, comes of the delivery
  of another cycle: one of another path, or one that began after the drop. -/
theorem dropped_leaves_no_trace {e : Engine} {d : Document} {trigger : Trigger} {now : Instant}
    (hstart : (e.start d trigger now).1 = none) {moves : List Move}
    (hlasts : (e.start d trigger now).2.Lasts d.path moves) :
    let begun := (e.start d trigger now).2
    let waiting := begun.run moves
    let dropped := waiting.abort d.path
    (Spares e begun d.path [] ∧
      begun.cooldown = (e.cooldown.setWindow e.settings.cooldownSeconds).record d.path now ∧
      (∀ path, path ≠ d.path → begun.cooldown.lastPass path = e.cooldown.lastPass path)) ∧
    (∀ (e : Engine) window again other later,
      (({ e with cooldown := { e.cooldown with window := window } } : Engine).start again other
        later).1 = (e.start again other later).1) ∧
    (∀ before a after, moves = before ++ .goOn d.path a :: after →
      Spares (begun.run before) ((begun.run before).goOn d.path a) d.path
          ((begun.run before).failures d.path a) ∧
        ((begun.run before).goOn d.path a).cooldown = (begun.run before).cooldown) ∧
    (Spares waiting dropped d.path [] ∧ dropped.cooldown = waiting.cooldown) ∧
    (dropped.phase d.path = .idle ∧
      ∀ again other later, again.path = d.path → (dropped.start again other later).1 ≠ some .busy) ∧
    ∀ more, (∀ list, ¬ begun.Delivers d.path (moves ++ .abort d.path :: more) list) ∧
      ∀ before m after i, moves ++ .abort d.path :: more = before ++ m :: after →
        .created i ∈ (begun.run before).told m →
        ∃ path a list, m = .goOn path a ∧ ((begun.run before).settle path).1 = some list ∧
          i ∈ list ∧ (path = d.path → ∃ later began,
            before = moves ++ .abort d.path :: later ∧ dropped.InFlight later d.path began) := by
  intro begun waiting dropped
  have hflight : begun.flight? d.path = some (e.launch d trigger) := flight?_launch hstart
  have hfree : dropped.flight? d.path = none := by
    rw [show dropped = waiting.dropFlight d.path from rfl, flight?_dropFlight, if_pos rfl]
  have hnever := not_delivers_of_dropped hlasts
  refine ⟨⟨spares_start hstart, ?_, fun path hne => ?_⟩, start_fst_of_window, ?_,
    spares_abort waiting d.path, ⟨phase_eq_idle_iff.2 hfree, ?_⟩, fun more => ⟨hnever more, ?_⟩⟩
  · rw [show begun = (e.start d trigger now).2 from rfl, (start_of_admitted hstart).2.2]
  · rw [lastPass_start, if_neg fun h => hne h.1]
  · rintro before a after rfl
    obtain ⟨hbefore, hends, -⟩ := lasts_append.1 hlasts
    have hf := flight?_run hflight hbefore
    exact spares_goOn hf (fun hn => hends ((ends_iff hf).2 (Or.inr ⟨a, rfl, hn⟩))) a
  · intro again other later hpath hbusy
    have := flight?_of_busy hbusy
    rw [hpath, hfree] at this
    cases this
  · intro before m after i heq hi
    obtain ⟨path, a, list, rfl, hsettle, hmem⟩ :=
      mem_delivered_iff.1 (created_mem_told_iff.1 hi)
    refine ⟨path, a, list, rfl, hsettle, hmem, ?_⟩
    rintro rfl
    -- Before the drop, the delivery would be that of the cycle.
    rcases split_cases heq with ⟨between, rfl⟩ | ⟨-, hmove⟩ | ⟨later, rfl, -⟩
    · have hbefore : begun.Lasts d.path before := (lasts_append.1 hlasts).1
      exact absurd ⟨before, a, after, heq, hbefore, hsettle⟩ (hnever more list)
    · cases hmove
    · rw [run_append, run_cons] at hsettle
      obtain ⟨began, hbegan⟩ := exists_inFlight_of_settle hfree hsettle
      exact ⟨later, began, rfl, hbegan⟩

/-- A review is dropped while it waits for its second answer. Its first question failed, and another
document was reviewed in the meantime. -/
theorem dropped_at_second_question :
    let d : Document := ⟨"// TODO: x\n// FIXME: y", "text", "a.txt"⟩
    let ids := fun n => String.ofList (List.replicate n 'x')
    let e := fresh { Settings.default with enhance := true }
      (.fresh ⟨.empty [], .memory .empty .none⟩) ids ⟨0, 0⟩
    let moves : List Move := [.start ⟨"// TODO: z", "text", "b.txt"⟩ .onDemand ⟨1, 0⟩,
      .goOn d.path (.error .emptySuggestion), .goOn "b.txt" (.ok "z"), .goOn "b.txt" (.ok "")]
    let begun := (e.start d .onDemand ⟨0, 0⟩).2
    let dropped := (begun.run moves).abort d.path
    (e.start d .onDemand ⟨0, 0⟩).1 = none ∧ begun.Lasts d.path moves ∧
    dropped.interventions.map (fun i => (i.id, i.context.path)) = [("", "b.txt")] ∧
    dropped.events.filterMap Event.created? = dropped.interventions ∧
    dropped.phase d.path = .idle ∧ (dropped.start d .onDemand ⟨2, 0⟩).1 ≠ some .busy ∧
    ∀ list, ¬ begun.Delivers d.path (moves ++ [.abort d.path, .goOn d.path (.ok "")]) list := by
  intro d ids e moves begun dropped
  have hstart : (e.start d .onDemand ⟨0, 0⟩).1 = none := by decide +kernel
  have hlasts : begun.Lasts d.path moves :=
    (lasts_start_iff hstart (by simp [moves]) (Nat.zero_le _)).2 (by decide +kernel)
  obtain ⟨-, -, -, -, ⟨hidle, hfree⟩, hnever⟩ := dropped_leaves_no_trace hstart hlasts
  exact ⟨hstart, hlasts, by decide +kernel, by decide +kernel, hidle, hfree d .onDemand ⟨2, 0⟩ rfl,
    (hnever [.goOn d.path (.ok "")]).1⟩

end CodeCoach.Engine
