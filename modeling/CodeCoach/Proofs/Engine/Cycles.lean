import CodeCoach.Proofs.Engine.Flight
import CodeCoach.Proofs.Engine.Run

/-!
# The life of a cycle

A cycle is let through, goes on while the engine does other things, and ends when it delivers or is
dropped.  Other moves count for it only by what has been learned when it looks up an issue.

* `Engine.Requested`, the four answers to a request for a cycle, and `requested`;
* `Engine.Begins`, `Engine.Ends`, `Engine.Lasts`, what moves mean to the cycle of a path;
* `Engine.givensTo`, what moves give to the steps of a cycle, and `flight?_run`: while a cycle lasts,
  its flight depends on that and on nothing else that happens;
* `Engine.lasts_iff`: it lasts as long as nobody drops it and its flight does not deliver;
* `Engine.LooksUpIn`, lookups that come out as by what was learned at some time;
* `Engine.Delivers`, with `Delivers.exists_run_eq`, what is delivered, and `exists_delivers`: a
  cycle that is not dropped delivers, at the latest when all its steps have come.
-/

namespace CodeCoach

namespace Engine

/-! ### Flights by their paths -/

theorem document_of_flight? {e : Engine} {path : String} {f : Flight}
    (h : e.flight? path = some f) : f.document.path = path := by
  simpa using List.find?_some h

theorem flight?_dropFlight (e : Engine) (path other : String) :
    (e.dropFlight path).flight? other = if other = path then none else e.flight? other := by
  simp only [flight?, dropFlight, List.find?_filter]
  split
  · next h =>
    subst h
    simp
  · next h =>
    congr 1
    funext f
    by_cases hf : f.document.path = other
    · simp [hf, h]
    · simp [hf]

theorem flight?_updateFlight (e : Engine) (path other : String) {change : Flight → Flight}
    (h : ∀ f, (change f).document = f.document) :
    (e.updateFlight path change).flight? other =
      if other = path then (e.flight? other).map change else e.flight? other := by
  have hkeep : ((fun f : Flight => f.document.path == other) ∘
      fun f => if f.document.path == path then change f else f) =
      fun f => f.document.path == other := by
    funext f
    simp only [Function.comp_apply]
    split <;> simp [h]
  simp only [flight?, updateFlight, List.find?_map, hkeep]
  cases hf : e.flights.find? fun f => f.document.path == other with
  | none => simp
  | some f =>
    have hother : f.document.path = other := by simpa using List.find?_some hf
    by_cases hp : other = path
    · simp [hp, hother]
    · simp [hp, hother]

/-! ### Requests -/

/-- The answers to a request for a cycle, with what each of them leaves behind. -/
inductive Requested (e : Engine) (d : Document) (trigger : Trigger) (now : Instant) : Prop
  | disabled (heq : e.start d trigger now = (some .disabled, e))
      (hoff : trigger ≠ .onDemand ∧ e.settings.proactive = false)
  | busy (heq : e.start d trigger now = (some .busy, e))
      (hon : ¬ (trigger ≠ .onDemand ∧ e.settings.proactive = false))
      (hflight : (e.flight? d.path).isSome)
  | coolingDown
      (heq : e.start d trigger now = (some .coolingDown,
        { e with cooldown := e.cooldown.setWindow e.settings.cooldownSeconds }))
      (hon : ¬ (trigger ≠ .onDemand ∧ e.settings.proactive = false))
      (hfree : e.flight? d.path = none)
      (hleft : ((e.cooldown.setWindow e.settings.cooldownSeconds).remaining d.path now).isSome)
  | admitted
      (heq : e.start d trigger now = (none,
        { e with
          cooldown := (e.cooldown.setWindow e.settings.cooldownSeconds).record d.path now
          flights := e.flights ++ [e.launch d trigger] }))
      (hon : ¬ (trigger ≠ .onDemand ∧ e.settings.proactive = false))
      (hfree : e.flight? d.path = none)
      (hleft : (e.cooldown.setWindow e.settings.cooldownSeconds).remaining d.path now = none)

theorem requested (e : Engine) (d : Document) (trigger : Trigger) (now : Instant) :
    Requested e d trigger now := by
  by_cases hoff : trigger ≠ .onDemand ∧ e.settings.proactive = false
  · exact .disabled (by simp [start, hoff]) hoff
  · have hon : (trigger != .onDemand && !e.settings.proactive) = false := by simpa using hoff
    cases hf : e.flight? d.path with
    | some f => exact .busy (by simp [start, hon, hf]) hoff (by simp [hf])
    | none =>
      cases hr : (e.cooldown.setWindow e.settings.cooldownSeconds).remaining d.path now with
      | some left =>
        exact .coolingDown (by simp [start, hon, hf, passCooldown, Cooldown.tryBegin, hr]) hoff hf
          (by simp [hr])
      | none =>
        exact .admitted (by simp [start, hon, hf, passCooldown, Cooldown.tryBegin, hr]; rfl) hoff hf
          hr

section Requests

variable {e : Engine} {d : Document} {trigger : Trigger} {now : Instant}

/-- A request for a path with a cycle in flight is refused and changes nothing. -/
theorem start_of_flight (h : (e.flight? d.path).isSome) (trigger : Trigger) (now : Instant) :
    e.start d trigger now =
      (some (if trigger ≠ .onDemand ∧ e.settings.proactive = false then .disabled else .busy),
        e) := by
  cases e.requested d trigger now with
  | disabled heq hoff => rw [heq, if_pos hoff]
  | busy heq hon _ => rw [heq, if_neg hon]
  | coolingDown _ _ hfree _ => simp [hfree] at h
  | admitted _ _ hfree _ => simp [hfree] at h

theorem flight?_of_refused (h : (e.start d trigger now).1 ≠ none) (path : String) :
    (e.start d trigger now).2.flight? path = e.flight? path := by
  cases e.requested d trigger now with
  | disabled heq _ => rw [heq]
  | busy heq _ _ => rw [heq]
  | coolingDown heq _ _ _ =>
    rw [heq]
    rfl
  | admitted heq _ _ _ => exact absurd (congrArg Prod.fst heq) h

/-- What is let through found its path free and its window over. -/
theorem start_of_admitted (h : (e.start d trigger now).1 = none) :
    e.flight? d.path = none ∧
      (e.cooldown.setWindow e.settings.cooldownSeconds).remaining d.path now = none ∧
      (e.start d trigger now).2 =
        { e with
          cooldown := (e.cooldown.setWindow e.settings.cooldownSeconds).record d.path now
          flights := e.flights ++ [e.launch d trigger] } := by
  cases e.requested d trigger now with
  | disabled heq _ => simp [heq] at h
  | busy heq _ _ => simp [heq] at h
  | coolingDown heq _ _ _ => simp [heq] at h
  | admitted heq _ hfree hleft => exact ⟨hfree, hleft, congrArg Prod.snd heq⟩

/-- What has to cool down found its path free, but not its window over. -/
theorem start_of_coolingDown (h : (e.start d trigger now).1 = some .coolingDown) :
    e.flight? d.path = none ∧
      ((e.cooldown.setWindow e.settings.cooldownSeconds).remaining d.path now).isSome := by
  cases e.requested d trigger now with
  | disabled heq _ => simp [heq] at h
  | busy heq _ _ => simp [heq] at h
  | coolingDown _ _ hfree hleft => exact ⟨hfree, hleft⟩
  | admitted heq _ _ _ => simp [heq] at h

/-- Only a flight of its own path keeps a request waiting. -/
theorem flight?_of_busy (h : (e.start d trigger now).1 = some .busy) :
    (e.flight? d.path).isSome := by
  cases e.requested d trigger now with
  | disabled heq _ => simp [heq] at h
  | busy _ _ hflight => exact hflight
  | coolingDown heq _ _ _ => simp [heq] at h
  | admitted heq _ _ _ => simp [heq] at h

/-- A request that is let through leaves a flight of its path. -/
theorem flight?_of_admitted (h : (e.start d trigger now).1 = none) (path : String) :
    (e.start d trigger now).2.flight? path =
      if path = d.path then some (e.launch d trigger) else e.flight? path := by
  obtain ⟨hfree, -, heq⟩ := start_of_admitted h
  have hpath : (e.launch d trigger).document.path = d.path := rfl
  rw [heq]
  simp only [flight?, List.find?_append] at hfree ⊢
  by_cases hp : path = d.path
  · subst hp
    simp [hfree, hpath]
  · simp [hp, hpath, Ne.symm hp]

theorem flight?_launch (h : (e.start d trigger now).1 = none) :
    (e.start d trigger now).2.flight? d.path = some (e.launch d trigger) := by
  rw [flight?_of_admitted h, if_pos rfl]

end Requests

/-! ### Steps -/

theorem settle_fst_eq_some_iff {e : Engine} {path : String} {list : List Intervention} :
    (e.settle path).1 = some list ↔ ∃ f, e.flight? path = some f ∧ f.next = .deliver ∧
      list = f.interventions e.ids e.issued e.clock := by
  unfold settle
  cases e.flight? path with
  | none => simp
  | some f =>
    by_cases h : f.next = .deliver
    · simp only [h, deliver, beq_self_eq_true, if_true, Option.some.injEq, exists_eq_left',
        true_and]
      exact eq_comm
    · simp [h]

theorem flight?_goOn (e : Engine) (path : String) (a : Answer) (other : String) :
    (e.goOn path a).flight? other =
      if other = path then
        (e.flight? other).bind fun f =>
          if f.next = .deliver then none else some (f.goOn ⟨e.store.learning, a⟩)
      else e.flight? other := by
  cases hf : e.flight? path with
  | none =>
    simp only [goOn, step?, hf, Option.map_none]
    split
    · next h => simp [h, hf]
    · rfl
  | some f =>
    have hpath := document_of_flight? hf
    cases hn : f.next with
    | lookUp i =>
      simp only [goOn, step?, hf, Option.map_some, hn, lookUp]
      rw [e.flight?_updateFlight path other fun f => f.document_lookUp e.store.learning]
      split
      · next h => simp [h, hf, Flight.goOn, hn]
      · rfl
    | ask q =>
      simp only [goOn, step?, hf, Option.map_some, hn]
      show (e.updateFlight path fun f => f.receive a).flight? other = _
      rw [e.flight?_updateFlight path other fun f => f.document_receive a]
      split
      · next h => simp [h, hf, Flight.goOn, hn]
      · rfl
    | deliver =>
      simp only [goOn, step?, hf, Option.map_some, hn, settle, beq_self_eq_true, if_true]
      show (e.dropFlight f.document.path).flight? other = _
      rw [hpath, flight?_dropFlight]
      split
      · next h => simp [h, hf, hn]
      · rfl

/-! ### What a move means to a cycle -/

/-- The move lets a cycle of the path through. -/
def Begins (e : Engine) (m : Move) (path : String) : Prop :=
  ∃ d trigger now, m = .start d trigger now ∧ d.path = path ∧ (e.start d trigger now).1 = none

/-- The move drops the cycle of the path, or it is the step in which that cycle delivers. -/
def Ends (e : Engine) (m : Move) (path : String) : Prop :=
  m = .abort path ∨ ∃ a, m = .goOn path a ∧ (e.settle path).1.isSome

theorem ends_iff {e : Engine} {path : String} {f : Flight} (hf : e.flight? path = some f)
    {m : Move} : e.Ends m path ↔ m = .abort path ∨ ∃ a, m = .goOn path a ∧ f.next = .deliver := by
  have hsettle : (e.settle path).1.isSome ↔ f.next = .deliver := by
    simp [Option.isSome_iff_exists, settle_fst_eq_some_iff, hf]
  rw [Ends, hsettle]

/-- The answer that a move gives to the cycle of a path. -/
def Move.answerTo? (path : String) : Move → Option Answer
  | .goOn other a => if other = path then some a else none
  | _ => none

theorem Move.eq_goOn_of_answerTo? {path : String} {m : Move} {a : Answer}
    (h : m.answerTo? path = some a) : m = .goOn path a := by
  cases m with
  | goOn other b =>
    rw [answerTo?] at h
    split at h
    · next hp => rw [hp, Option.some.inj h]
    · cases h
  | _ => cases h

/-- The answers that moves give to the cycle of a path. -/
def answersTo (path : String) (moves : List Move) : List Answer :=
  moves.filterMap (Move.answerTo? path)

@[simp] theorem answersTo_map_goOn (path : String) (answers : List Answer) :
    answersTo path (answers.map (.goOn path)) = answers := by
  simp [answersTo, Move.answerTo?, List.filterMap_map, Function.comp_def]

/-- What a move gives to the cycle of a path. -/
def givenTo? (e : Engine) (path : String) (m : Move) : Option Given :=
  (m.answerTo? path).map (Given.mk e.store.learning)

/-- What moves give to the steps of the cycle of a path. -/
def givensTo (e : Engine) (path : String) : List Move → List Given
  | [] => []
  | m :: moves => (e.givenTo? path m).toList ++ (e.after m).givensTo path moves

theorem givensTo_append (e : Engine) (path : String) (moves more : List Move) :
    e.givensTo path (moves ++ more) = e.givensTo path moves ++ (e.run moves).givensTo path more := by
  induction moves generalizing e with
  | nil => rfl
  | cons m moves ih => simp [givensTo, ih]

@[simp] theorem map_answer_givensTo (e : Engine) (path : String) (moves : List Move) :
    (e.givensTo path moves).map Given.answer = answersTo path moves := by
  induction moves generalizing e with
  | nil => rfl
  | cons m moves ih =>
    rw [givensTo, List.map_append, ih]
    cases ha : m.answerTo? path <;> simp [answersTo, givenTo?, ha]

theorem length_givensTo (e : Engine) (path : String) (moves : List Move) :
    (e.givensTo path moves).length = (answersTo path moves).length := by
  rw [← map_answer_givensTo e, List.length_map]

/-- What is given to a step is what has been learned by then, with the answer. -/
theorem exists_goOn_of_mem_givensTo {e : Engine} {path : String} {moves : List Move} {k : Nat}
    {g : Given} (h : (e.givensTo path moves)[k]? = some g) :
    ∃ before a rest, moves = before ++ .goOn path a :: rest ∧ (e.givensTo path before).length = k ∧
      g = ⟨(e.run before).store.learning, a⟩ := by
  induction moves generalizing e k with
  | nil => simp [givensTo] at h
  | cons m moves ih =>
    have hlater {j : Nat} (hj : ((e.after m).givensTo path moves)[j]? = some g)
        (hk : (e.givenTo? path m).toList.length + j = k) :
        ∃ before a rest, m :: moves = before ++ .goOn path a :: rest ∧
          (e.givensTo path before).length = k ∧ g = ⟨(e.run before).store.learning, a⟩ := by
      obtain ⟨before, a, rest, rfl, hlength, hg⟩ := ih hj
      refine ⟨m :: before, a, rest, rfl, ?_, hg⟩
      rw [givensTo, List.length_append, hlength, hk]
    rw [givensTo] at h
    cases ha : m.answerTo? path with
    | none =>
      rw [givenTo?, ha] at h
      exact hlater h (by simp [givenTo?, ha])
    | some a =>
      rw [givenTo?, ha] at h
      cases k with
      | zero =>
        obtain rfl := Option.some.inj h
        exact ⟨[], a, moves, by rw [Move.eq_goOn_of_answerTo? ha]; rfl, rfl, rfl⟩
      | succ k => exact hlater h (by simp [givenTo?, ha, Nat.add_comm])

theorem isSome_flight?_of_begins {e : Engine} {m : Move} {path : String} (h : e.Begins m path) :
    e.flight? path = none ∧ ((e.after m).flight? path).isSome := by
  obtain ⟨d, trigger, now, rfl, rfl, h⟩ := h
  refine ⟨(start_of_admitted h).1, ?_⟩
  rw [after, flight?_launch h]
  rfl

theorem flight?_of_ends {e : Engine} {m : Move} {path : String} (h : e.Ends m path) :
    (e.after m).flight? path = none := by
  rcases h with rfl | ⟨a, rfl, h⟩
  · rw [after, abort, flight?_dropFlight, if_pos rfl]
  · obtain ⟨list, h⟩ := Option.isSome_iff_exists.1 h
    obtain ⟨f, hf, hn, -⟩ := settle_fst_eq_some_iff.1 h
    rw [after, flight?_goOn, if_pos rfl, hf]
    simp [hn]

/-- Any other move changes the flight of a path only by what it gives to it. -/
theorem flight?_after {e : Engine} {m : Move} {path : String} (hbegins : ¬ e.Begins m path)
    (hends : ¬ e.Ends m path) :
    (e.after m).flight? path = (e.flight? path).map fun f => f.run (e.givenTo? path m).toList := by
  have hid : (e.flight? path).map (fun f => f.run []) = e.flight? path := by
    cases e.flight? path <;> rfl
  cases m with
  | start d trigger now =>
    refine Eq.trans ?_ hid.symm
    rw [after]
    by_cases h : (e.start d trigger now).1 = none
    · have hp : path ≠ d.path := fun hp => hbegins ⟨d, trigger, now, rfl, hp.symm, h⟩
      rw [flight?_of_admitted h, if_neg hp]
    · exact flight?_of_refused h path
  | goOn other a =>
    rw [after, flight?_goOn, givenTo?, Move.answerTo?]
    by_cases hp : other = path
    · subst hp
      simp only [if_true, Option.map_some, Option.toList_some, Flight.run_cons, Flight.run_nil]
      cases hf : e.flight? other with
      | none => rfl
      | some f =>
        -- A flight that is ready would be delivered, which ends the cycle.
        have hn : f.next ≠ .deliver := fun hn => hends ((ends_iff hf).2 (Or.inr ⟨a, rfl, hn⟩))
        simp [hn]
    · rw [if_neg hp, if_neg (Ne.symm hp)]
      exact hid.symm
  | abort other =>
    have hp : path ≠ other := fun hp => hends (Or.inl (by rw [hp]))
    rw [after, abort, flight?_dropFlight, if_neg hp]
    exact hid.symm
  | act id action note =>
    refine Eq.trans ?_ hid.symm
    simp only [after, act]
    split <;> rfl
  | schedule d trigger =>
    refine Eq.trans ?_ hid.symm
    simp only [after, schedule]
    split <;> rfl
  | configure settings => exact hid.symm
  | tick clock => exact hid.symm
  | storage s => exact hid.symm
  | reset => exact hid.symm
  | unschedule other => exact hid.symm
  | elapse ms => exact hid.symm

/-! ### A cycle in the course of a run -/

/-- The cycle of a path neither delivers nor is dropped in the course of moves. -/
def Lasts (e : Engine) (path : String) : List Move → Prop
  | [] => True
  | m :: moves => ¬ e.Ends m path ∧ (e.after m).Lasts path moves

theorem lasts_append {e : Engine} {path : String} {moves more : List Move} :
    e.Lasts path (moves ++ more) ↔ e.Lasts path moves ∧ (e.run moves).Lasts path more := by
  induction moves generalizing e with
  | nil => simp [Lasts]
  | cons n moves ih => simp [Lasts, ih, and_assoc]

theorem lasts_concat {e : Engine} {path : String} {moves : List Move} {m : Move} :
    e.Lasts path (moves ++ [m]) ↔ e.Lasts path moves ∧ ¬ (e.run moves).Ends m path := by
  simp [lasts_append, Lasts]

theorem not_begins_of_flight? {e : Engine} {path : String} {f : Flight}
    (hf : e.flight? path = some f) (m : Move) : ¬ e.Begins m path := by
  intro hbegins
  have hfree := (isSome_flight?_of_begins hbegins).1
  rw [hf] at hfree
  cases hfree

/-- While a cycle lasts, its flight depends on what its steps are given, whatever else happens. -/
theorem flight?_run {e : Engine} {path : String} {f : Flight} {moves : List Move}
    (hf : e.flight? path = some f) (h : e.Lasts path moves) :
    (e.run moves).flight? path = some (f.run (e.givensTo path moves)) := by
  induction moves generalizing e f with
  | nil => exact hf
  | cons m moves ih =>
    obtain ⟨hends, h⟩ := h
    have hstep := flight?_after (not_begins_of_flight? hf m) hends
    rw [hf, Option.map_some] at hstep
    rw [run_cons, ih hstep h, givensTo, Flight.run_append]

/-- A cycle lasts as long as nobody drops it and its flight does not deliver. -/
theorem lasts_iff {e : Engine} {path : String} {f : Flight} {moves : List Move}
    (hf : e.flight? path = some f) :
    e.Lasts path moves ↔ .abort path ∉ moves ∧ f.Lasts (e.givensTo path moves) := by
  induction moves generalizing e f with
  | nil => simp [Lasts, givensTo, Flight.Lasts]
  | cons m moves ih =>
    have hstep (h : ¬ e.Ends m path) : (e.after m).flight? path =
        some (f.run (e.givenTo? path m).toList) := by
      rw [flight?_after (not_begins_of_flight? hf m) h, hf, Option.map_some]
    cases ha : m.answerTo? path with
    | none =>
      have hgiven : e.givenTo? path m = none := by rw [givenTo?, ha, Option.map_none]
      have hends : e.Ends m path ↔ m = .abort path := by
        rw [ends_iff hf, or_iff_left]
        rintro ⟨a, rfl, -⟩
        simp [Move.answerTo?] at ha
      by_cases habort : m = .abort path
      · subst habort
        exact iff_of_false (fun h => h.1 (hends.2 rfl)) fun h => h.1 List.mem_cons_self
      · rw [Lasts, ih (hstep (hends.not.2 habort))]
        simp [hends, habort, Ne.symm habort, givensTo, hgiven]
    | some a =>
      obtain rfl := Move.eq_goOn_of_answerTo? ha
      have hends : e.Ends (.goOn path a) path ↔ f.next = .deliver := by simp [ends_iff hf]
      by_cases hn : f.next = .deliver
      · simp [Lasts, hends, hn, givensTo, givenTo?, ha, Flight.Lasts]
      · rw [Lasts, ih (hstep (hends.not.2 hn))]
        simp [hends, hn, givensTo, givenTo?, ha, Flight.Lasts]

/-- A cycle that nobody drops lasts as long as it has something to look up or to ask. -/
theorem lasts_start_iff {e : Engine} {d : Document} {trigger : Trigger} {now : Instant}
    (hstart : (e.start d trigger now).1 = none) {moves : List Move}
    (habort : .abort d.path ∉ moves)
    (hlookups : lookups trigger (Review.ofDocument d) ≤ (answersTo d.path moves).length) :
    (e.start d trigger now).2.Lasts d.path moves ↔
      (answersTo d.path moves).length ≤ lookups trigger (Review.ofDocument d) +
        questions e.settings (selectBy e.settings trigger (Review.ofDocument d)
          ((e.start d trigger now).2.givensTo d.path moves)) := by
  have hlength := (e.start d trigger now).2.length_givensTo d.path moves
  rw [lasts_iff (flight?_launch hstart), and_iff_right habort, ← hlength]
  exact Flight.lasts_ofIssues_iff (by rwa [hlength])

/-- Each answer brings a cycle that lasts nearer to its end. -/
theorem stepsLeft_run {e : Engine} {path : String} {f : Flight} {moves : List Move}
    (hf : e.flight? path = some f) (h : e.Lasts path moves) :
    (f.run (e.givensTo path moves)).stepsLeft + (answersTo path moves).length ≤ f.stepsLeft := by
  rw [← length_givensTo e]
  exact Flight.length_of_lasts ((lasts_iff hf).1 h).2

/-- A cycle that has the engine to itself is given what has been learned, which stays the same. -/
theorem givensTo_map_goOn (e : Engine) (path : String) (answers : List Answer) :
    e.givensTo path (answers.map (.goOn path)) = answers.map (Given.mk e.store.learning) := by
  induction answers generalizing e with
  | nil => rfl
  | cons a answers ih =>
    rw [List.map_cons, givensTo, ih, after, store_goOn]
    simp [givenTo?, Move.answerTo?]

/-! ### Lookups that come out as before -/

/-- Each issue that the cycle of a path looks up in the course of moves is worth showing, or not, as it
is by `l`. -/
def LooksUpIn (e : Engine) (path : String) (l : Learning) : List Move → Prop
  | [] => True
  | m :: moves =>
    (∀ i a, m = .goOn path a → e.step? path = some (.lookUp i) →
      e.store.learning.shows i = l.shows i) ∧
    (e.Ends m path ∨ (e.after m).LooksUpIn path l moves)

theorem LooksUpIn.of_append {e : Engine} {path : String} {l : Learning} {moves more : List Move}
    (h : e.LooksUpIn path l (moves ++ more)) : e.LooksUpIn path l moves := by
  induction moves generalizing e with
  | nil => trivial
  | cons m moves ih => exact ⟨h.1, h.2.imp_right ih⟩

/-- Then its flight goes the way that it would go if `l` had been learned all along. -/
theorem LooksUpIn.looksUpIn {e : Engine} {path : String} {f : Flight} {l : Learning}
    {moves : List Move} (h : e.LooksUpIn path l moves)
    (hf : e.flight? path = some f) (hlasts : e.Lasts path moves) :
    f.LooksUpIn l (e.givensTo path moves) := by
  induction moves generalizing e f with
  | nil => trivial
  | cons m moves ih =>
    obtain ⟨hstep, hlater⟩ := h
    have hnext := flight?_after (not_begins_of_flight? hf m) hlasts.1
    rw [hf, Option.map_some] at hnext
    have ih := ih (hlater.resolve_left hlasts.1) hnext hlasts.2
    rw [givensTo]
    cases ha : m.answerTo? path with
    | none => simpa [givenTo?, ha] using ih
    | some a =>
      obtain rfl := Move.eq_goOn_of_answerTo? ha
      simp only [givenTo?, ha, Option.map_some, Option.toList_some, Flight.run_cons,
        Flight.run_nil] at ih ⊢
      refine ⟨fun i hn => hstep i a rfl ?_, ih⟩
      rw [step?, hf, Option.map_some, hn]

/-- A cycle that is let through and has the engine to itself looks up its issues in what has been
learned by then. -/
theorem looksUpIn_map_goOn (e : Engine) (path : String) (answers : List Answer) :
    e.LooksUpIn path e.store.learning (answers.map (.goOn path)) := by
  generalize hl : e.store.learning = l
  induction answers generalizing e with
  | nil => trivial
  | cons a answers ih =>
    refine ⟨fun i b _ _ => by rw [hl], Or.inr (ih _ ?_)⟩
    rw [after, store_goOn, hl]

/-! ### Deliveries -/

/-- The cycle of a path that is in flight delivers interventions in the course of moves. -/
def Delivers (e : Engine) (path : String) (moves : List Move) (list : List Intervention) : Prop :=
  ∃ before a after, moves = before ++ .goOn path a :: after ∧ e.Lasts path before ∧
    ((e.run before).settle path).1 = some list

theorem Delivers.cons {e : Engine} {path : String} {m : Move} {moves : List Move}
    {list : List Intervention} (hends : ¬ e.Ends m path)
    (h : (e.after m).Delivers path moves list) : e.Delivers path (m :: moves) list := by
  obtain ⟨before, a, after, rfl, hlasts, hsettle⟩ := h
  exact ⟨m :: before, a, after, rfl, ⟨hends, hlasts⟩, hsettle⟩

theorem Delivers.of_lasts {e : Engine} {path : String} {before moves : List Move}
    {list : List Intervention} (h : (e.run before).Delivers path moves list)
    (hlasts : e.Lasts path before) : e.Delivers path (before ++ moves) list := by
  induction before generalizing e with
  | nil => exact h
  | cons m before ih => exact (ih h hlasts.2).cons hlasts.1

/-- What a cycle delivers is what its flight has become with what its steps were given, whatever else
happened. -/
theorem Delivers.exists_run_eq {e : Engine} {path : String} {f : Flight} {moves : List Move}
    {list : List Intervention} (h : e.Delivers path moves list) (hf : e.flight? path = some f) :
    ∃ before more, moves = before ++ more ∧ e.Lasts path before ∧
      (f.run (e.givensTo path before)).next = .deliver ∧ ∃ issued clock,
        list = (f.run (e.givensTo path before)).interventions e.ids issued clock := by
  obtain ⟨before, a, after, rfl, hlasts, hsettle⟩ := h
  obtain ⟨g, hg, hn, rfl⟩ := settle_fst_eq_some_iff.1 hsettle
  obtain rfl := Option.some.inj ((flight?_run hf hlasts).symm.trans hg)
  exact ⟨before, _, rfl, hlasts, hn, (e.run before).issued, (e.run before).clock, by rw [ids_run]⟩

/-- A cycle that nobody drops lasts or delivers. -/
theorem exists_delivers_of_not_lasts {e : Engine} {path : String} {moves : List Move}
    (habort : .abort path ∉ moves) (h : ¬ e.Lasts path moves) :
    ∃ list, e.Delivers path moves list := by
  induction moves generalizing e with
  | nil => exact absurd trivial h
  | cons m moves ih =>
    rw [List.mem_cons, not_or] at habort
    by_cases hends : e.Ends m path
    · rcases hends with rfl | ⟨a, rfl, hsettle⟩
      · exact absurd rfl habort.1
      · obtain ⟨list, hsettle⟩ := Option.isSome_iff_exists.1 hsettle
        exact ⟨list, [], a, moves, rfl, trivial, hsettle⟩
    · obtain ⟨list, hlist⟩ := ih habort.2 fun hlater => h ⟨hends, hlater⟩
      exact ⟨list, hlist.cons hends⟩

/-- A cycle that nobody drops delivers, at the latest when all its steps have come. -/
theorem exists_delivers {e : Engine} {path : String} {f : Flight} {moves : List Move}
    (hf : e.flight? path = some f) (habort : .abort path ∉ moves)
    (hsteps : f.stepsLeft ≤ (answersTo path moves).length) :
    ∃ list, e.Delivers path moves list := by
  refine exists_delivers_of_not_lasts habort fun hlasts => ?_
  have hleft := stepsLeft_run hf hlasts
  have hpos := (f.run (e.givensTo path moves)).stepsLeft_pos
  omega

end Engine

end CodeCoach
