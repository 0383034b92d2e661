import CodeCoach.Engine
import Mathlib.Data.List.Basic

/-!
# Flights on their own

What becomes of a cycle depends on what its steps are given: by what has been learned when it looks up
an issue, the issue is kept or left out, and then there are the answers to its questions.

* `Given`, `Flight.goOn`, `Flight.run`, what becomes of a flight with what its steps are given;
* `Flight.Lasts`: no step delivers; `Flight.length_of_lasts`, a bound on the number of steps;
* `keptBy`, `selectBy`, the issues that lookups keep and those that are brought up then;
* `Flight.run_filter`, `Flight.run_responding`: the lookups one by one, and the answers;
* `Flight.LooksUpIn`, lookups that come out as by `l`, whatever was learned in the meantime;
* `Flight.run_of_deliver`: when a cycle has only to deliver, it is known how many steps it did and
  which contexts are ready.
-/

namespace CodeCoach

/-- What a step of a cycle is given: a lookup goes by what has been learned, and a question gets the
answer. -/
structure Given where
  learned : Learning
  answer : Answer

/-! ### Selected issues -/

/-- The issues that are worth showing, each by what has been learned when it is looked up. -/
def keptBy (issues : List Issue) (givens : List Given) : List Issue :=
  ((issues.zip givens).filter fun x => x.2.learned.shows x.1).map Prod.fst

/-- The issues to bring up, each by what has been learned when it is looked up. -/
def selectBy (s : Settings) (trigger : Trigger) (issues : List Issue) (givens : List Given) :
    List Issue :=
  if trigger == .onDemand then issues.filter s.frequency.allows
  else limited s (keptBy issues givens)

/-- A review on demand does not look at what has been learned. -/
@[simp] theorem selectBy_onDemand (s : Settings) (issues : List Issue) (givens : List Given) :
    selectBy s .onDemand issues givens = issues.filter s.frequency.allows := rfl

theorem keptBy_cons_cons (i : Issue) (issues : List Issue) (g : Given) (givens : List Given) :
    keptBy (i :: issues) (g :: givens) =
      (if g.learned.shows i then [i] else []) ++ keptBy issues givens := by
  unfold keptBy
  rw [List.zip_cons_cons, List.filter_cons]
  split <;> rfl

/-- What is given after the lookups does not count. -/
theorem keptBy_take {issues : List Issue} {givens : List Given} {n : Nat} (h : issues.length ≤ n) :
    keptBy issues (givens.take n) = keptBy issues givens := by
  induction issues generalizing givens n with
  | nil => rfl
  | cons i issues ih =>
    obtain ⟨n, rfl⟩ : ∃ k, n = k + 1 := ⟨n - 1, by rw [List.length_cons] at h; omega⟩
    cases givens with
    | nil => rfl
    | cons g givens =>
      rw [List.take_succ_cons, keptBy_cons_cons, keptBy_cons_cons, ih (Nat.le_of_succ_le_succ h)]

theorem selectBy_take (s : Settings) (trigger : Trigger) (issues : List Issue)
    (givens : List Given) {n : Nat} (h : lookups trigger issues ≤ n) :
    selectBy s trigger issues (givens.take n) = selectBy s trigger issues givens := by
  unfold selectBy
  unfold lookups at h
  split
  · rfl
  · next hne =>
    rw [if_neg hne] at h
    rw [keptBy_take h]

theorem selectBy_append (s : Settings) (trigger : Trigger) {issues : List Issue}
    {givens : List Given} (more : List Given) (h : lookups trigger issues ≤ givens.length) :
    selectBy s trigger issues (givens ++ more) = selectBy s trigger issues givens := by
  rw [← selectBy_take s trigger issues (givens ++ more) h, List.take_left]

/-- What is kept was worth showing when it was looked up. -/
theorem mem_keptBy {issues : List Issue} {givens : List Given} {i : Issue}
    (h : i ∈ keptBy issues givens) :
    ∃ (k : Nat) (g : Given),
      issues[k]? = some i ∧ givens[k]? = some g ∧ g.learned.shows i = true := by
  obtain ⟨⟨j, g⟩, hmem, rfl⟩ := List.mem_map.1 h
  obtain ⟨hzip, hshows⟩ := List.mem_filter.1 hmem
  obtain ⟨k, hk⟩ := List.mem_iff_getElem?.1 hzip
  obtain ⟨hi, hg⟩ := List.getElem?_zip_eq_some.1 hk
  exact ⟨k, g, hi, hg, hshows⟩

/-- Lookups in the same state keep what is worth showing in it. -/
theorem keptBy_map_mk (l : Learning) {issues : List Issue} {answers : List Answer}
    (h : issues.length ≤ answers.length) :
    keptBy issues (answers.map (Given.mk l)) = issues.filter l.shows := by
  induction issues generalizing answers with
  | nil => rfl
  | cons i issues ih =>
    cases answers with
    | nil => simp at h
    | cons a answers =>
      rw [List.map_cons, keptBy_cons_cons, ih (Nat.le_of_succ_le_succ h), List.filter_cons]
      split <;> rfl

theorem selectBy_map_mk (l : Learning) (s : Settings) (trigger : Trigger) {issues : List Issue}
    {answers : List Answer} (h : lookups trigger issues ≤ answers.length) :
    selectBy s trigger issues (answers.map (Given.mk l)) = select l s trigger issues := by
  unfold selectBy select
  unfold lookups at h
  split
  · rfl
  · next hne =>
    rw [if_neg hne] at h
    rw [keptBy_map_mk l h]

/-! ### Steps -/

/-- The number of questions about issues that are brought up. -/
def questions (s : Settings) (issues : List Issue) : Nat := if s.enhance then issues.length else 0

/-- The contexts of issues that are brought up, with the answers to the questions about them. -/
def contextsOf (s : Settings) (issues : List Issue) (answers : List Answer) : List Context :=
  if s.enhance then List.zipWith Issue.enhancedContext issues answers
  else issues.map Issue.context

namespace Flight

/-- The flight after its next step. -/
def goOn (f : Flight) (g : Given) : Flight :=
  match f.next with
  | .lookUp _ => f.lookUp g.learned
  | .ask _ => f.receive g.answer
  | .deliver => f

/-- The flight after as many steps as are given. -/
def run (f : Flight) (givens : List Given) : Flight := givens.foldl goOn f

/-- The flight delivers at none of the steps. -/
def Lasts (f : Flight) : List Given → Prop
  | [] => True
  | g :: givens => f.next ≠ .deliver ∧ (f.goOn g).Lasts givens

variable {f : Flight} {g : Given} {givens more : List Given}

@[simp] theorem run_nil (f : Flight) : f.run [] = f := rfl

@[simp] theorem run_cons (f : Flight) (g : Given) (givens : List Given) :
    f.run (g :: givens) = (f.goOn g).run givens := rfl

theorem run_append (f : Flight) (givens more : List Given) :
    f.run (givens ++ more) = (f.run givens).run more := List.foldl_append

theorem lasts_append :
    f.Lasts (givens ++ more) ↔ f.Lasts givens ∧ (f.run givens).Lasts more := by
  induction givens generalizing f with
  | nil => simp [Lasts]
  | cons g givens ih => simp [Lasts, ih, and_assoc]

/-- A flight that has only to deliver delivers at its next step. -/
theorem not_lasts_of_deliver (h : (f.run givens).next = .deliver) (g : Given)
    (more : List Given) : ¬ f.Lasts (givens ++ g :: more) := fun hlasts =>
  (lasts_append.1 hlasts).2.1 h

theorem stepsLeft_goOn (h : f.next ≠ .deliver) (g : Given) :
    (f.goOn g).stepsLeft + 1 ≤ f.stepsLeft := by
  unfold goOn
  split
  · next hn => exact stepsLeft_lookUp hn g.learned
  · next hn => exact Nat.le_of_eq (stepsLeft_receive hn g.answer)
  · next hn => exact absurd hn h

/-- Each step brings a flight nearer to its end. -/
theorem length_of_lasts (h : f.Lasts givens) :
    (f.run givens).stepsLeft + givens.length ≤ f.stepsLeft := by
  induction givens generalizing f with
  | nil => exact Nat.le_refl _
  | cons g givens ih =>
    have hstep := stepsLeft_goOn h.1 g
    have hlater := ih h.2
    rw [run_cons, List.length_cons]
    omega

theorem settings_goOn (f : Flight) (g : Given) : (f.goOn g).settings = f.settings := by
  unfold goOn lookUp receive
  split
  · split <;> rfl
  · split <;> rfl
  · rfl

theorem settings_run (f : Flight) (givens : List Given) : (f.run givens).settings = f.settings := by
  induction givens generalizing f with
  | nil => rfl
  | cons g givens ih => rw [run_cons, ih, settings_goOn]

/-! ### Lookups -/

section Lookups

variable {d : Document} {s : Settings}

theorem goOn_filter (kept : List Issue) (i : Issue) (unseen : List Issue) (g : Given) :
    (Flight.mk d s (.filter s kept (i :: unseen))).goOn g =
      ⟨d, s, .filter s (kept ++ if g.learned.shows i then [i] else []) unseen⟩ := by
  show Flight.mk d s (.filter s (if g.learned.shows i then kept ++ [i] else kept) unseen) = _
  split
  · rfl
  · rw [List.append_nil]

/-- The lookups, one by one, keep what was worth showing. -/
theorem run_filter (kept : List Issue) {unseen : List Issue} (h : givens.length ≤ unseen.length) :
    (Flight.mk d s (.filter s kept unseen)).Lasts givens ∧
      (Flight.mk d s (.filter s kept unseen)).run givens =
        ⟨d, s, .filter s (kept ++ keptBy unseen givens) (unseen.drop givens.length)⟩ := by
  induction givens generalizing kept unseen with
  | nil => simp [Lasts, keptBy]
  | cons g givens ih =>
    cases unseen with
    | nil => simp at h
    | cons i unseen =>
      rw [Lasts, run_cons, goOn_filter, keptBy_cons_cons, ← List.append_assoc]
      obtain ⟨hlasts, hrun⟩ :=
        ih (kept ++ if g.learned.shows i then [i] else []) (Nat.le_of_succ_le_succ h)
      exact ⟨⟨nofun, hlasts⟩, hrun⟩

end Lookups

/-! ### Questions -/

section Questions

variable {d : Document} {s : Settings} {ready : List Context} {rest : List Issue}

theorem goOn_responding (i : Issue) (g : Given) :
    (Flight.mk d s (.responding ready (i :: rest))).goOn g =
      ⟨d, s, .responding (ready ++ [i.enhancedContext g.answer]) rest⟩ := rfl

/-- As long as there are questions, a flight delivers at no step. -/
theorem lasts_responding_iff :
    (Flight.mk d s (.responding ready rest)).Lasts givens ↔ givens.length ≤ rest.length := by
  induction givens generalizing ready rest with
  | nil => simp [Lasts]
  | cons g givens ih =>
    cases rest with
    | nil => simp [Lasts, next]
    | cons i rest =>
      rw [Lasts, goOn_responding, ih]
      simp [next]

/-- Each answer makes the context of one issue ready. -/
theorem run_responding (h : givens.length ≤ rest.length) :
    (Flight.mk d s (.responding ready rest)).run givens =
      ⟨d, s, .responding
        (ready ++ List.zipWith Issue.enhancedContext rest (givens.map Given.answer))
        (rest.drop givens.length)⟩ := by
  induction givens generalizing ready rest with
  | nil => simp
  | cons g givens ih =>
    cases rest with
    | nil => simp at h
    | cons i rest =>
      rw [run_cons, goOn_responding, ih (Nat.le_of_succ_le_succ h)]
      simp

/-- What is left to do for issues that are brought up are the questions about them. -/
theorem lasts_bringUp_iff {issues : List Issue} :
    (Flight.mk d s (.bringUp s issues)).Lasts givens ↔ givens.length ≤ questions s issues := by
  rw [Stage.bringUp, lasts_responding_iff, questions]
  cases s.enhance <;> rfl

/-- The flight for issues that are brought up depends on the answers alone. -/
theorem run_bringUp_congr {issues : List Issue} {givens' : List Given}
    (h : givens.length ≤ questions s issues)
    (hanswers : givens'.map Given.answer = givens.map Given.answer) :
    (Flight.mk d s (.bringUp s issues)).run givens' =
      (Flight.mk d s (.bringUp s issues)).run givens := by
  have hlength : givens'.length = givens.length := by simpa using congrArg List.length hanswers
  have hrest : givens.length ≤ (if s.enhance then issues else []).length := by
    refine Nat.le_trans h (Nat.le_of_eq ?_)
    unfold questions
    split <;> rfl
  rw [Stage.bringUp, run_responding hrest, run_responding (hlength ▸ hrest), hanswers, hlength]

/-- When all questions have been answered, the contexts of all issues are ready. -/
theorem run_bringUp {issues : List Issue} (h : givens.length = questions s issues) :
    (Flight.mk d s (.bringUp s issues)).run givens =
      ⟨d, s, .responding (contextsOf s issues (givens.map Given.answer)) []⟩ := by
  have hrest : givens.length = (if s.enhance then issues else []).length := by
    rw [h, questions]
    split <;> rfl
  rw [Stage.bringUp, run_responding (Nat.le_of_eq hrest), hrest, List.drop_length, contextsOf]
  cases s.enhance <;> simp

/-- A flight for issues that are brought up has only to deliver when all questions have been
answered, and not before. -/
theorem run_bringUp_of_deliver {issues : List Issue}
    (hlasts : (Flight.mk d s (.bringUp s issues)).Lasts givens)
    (hnext : ((Flight.mk d s (.bringUp s issues)).run givens).next = .deliver) :
    givens.length = questions s issues ∧
      (Flight.mk d s (.bringUp s issues)).run givens =
        ⟨d, s, .responding (contextsOf s issues (givens.map Given.answer)) []⟩ := by
  have hlength : givens.length = questions s issues := by
    refine Nat.le_antisymm (lasts_bringUp_iff.1 hlasts) (Nat.le_of_not_lt fun hfew => ?_)
    -- With a step more there would be a question left, which is not so.
    refine not_lasts_of_deliver hnext ⟨.empty, .ok ""⟩ [] (lasts_bringUp_iff.2 ?_)
    rwa [List.length_append, List.length_singleton]
  exact ⟨hlength, run_bringUp hlength⟩

end Questions

/-! ### From the start to the delivery -/

section Launched

variable {d : Document} {s : Settings} {trigger : Trigger} {issues : List Issue}

/-- The next lookup is that of the issue whose turn it is. -/
theorem next_of_lookups {k : Nat} {i : Issue} (hdemand : trigger ≠ .onDemand)
    (hlength : givens.length = k) (hi : issues[k]? = some i) :
    ((Flight.mk d s (.ofIssues s trigger issues)).run givens).next = .lookUp i := by
  obtain ⟨hk, rfl⟩ := List.getElem?_eq_some_iff.1 hi
  rw [Stage.ofIssues, if_neg (by simpa using hdemand),
    (run_filter [] (by omega : givens.length ≤ issues.length)).2, hlength,
    List.drop_eq_getElem_cons hk]
  rfl

/-- After its lookups, a cycle has the issues to bring up. -/
theorem run_ofIssues (h : givens.length = lookups trigger issues) :
    (Flight.mk d s (.ofIssues s trigger issues)).Lasts givens ∧
      (Flight.mk d s (.ofIssues s trigger issues)).run givens =
        ⟨d, s, .bringUp s (selectBy s trigger issues givens)⟩ := by
  unfold Stage.ofIssues selectBy
  unfold lookups at h
  split at h
  · next hdemand =>
    rw [if_pos hdemand, if_pos hdemand, List.eq_nil_of_length_eq_zero h]
    exact ⟨trivial, rfl⟩
  · next hdemand =>
    rw [if_neg hdemand, if_neg hdemand]
    obtain ⟨hlasts, hrun⟩ := run_filter (d := d) (s := s) [] (Nat.le_of_eq h)
    rw [h, List.drop_length, List.nil_append] at hrun
    exact ⟨hlasts, hrun⟩

/-- A cycle goes on as long as there is something to look up or to ask. -/
theorem lasts_ofIssues_iff (h : lookups trigger issues ≤ givens.length) :
    (Flight.mk d s (.ofIssues s trigger issues)).Lasts givens ↔
      givens.length ≤ lookups trigger issues + questions s (selectBy s trigger issues givens) := by
  have htake : (givens.take (lookups trigger issues)).length = lookups trigger issues := by
    rw [List.length_take]
    omega
  obtain ⟨hlasts, hrun⟩ := run_ofIssues (d := d) (s := s) htake
  rw [selectBy_take s trigger issues givens (Nat.le_refl _)] at hrun
  conv_lhs => rw [← List.take_append_drop (lookups trigger issues) givens]
  rw [lasts_append, and_iff_right hlasts, hrun, lasts_bringUp_iff, List.length_drop]
  omega

/-- When a cycle has only to deliver, it has done all its lookups, and then the questions about the
issues that are brought up. -/
theorem exists_lookups_of_deliver
    (hlasts : (Flight.mk d s (.ofIssues s trigger issues)).Lasts givens)
    (hnext : ((Flight.mk d s (.ofIssues s trigger issues)).run givens).next = .deliver) :
    ∃ early late, givens = early ++ late ∧ early.length = lookups trigger issues ∧
      (givens.map Given.answer).drop (lookups trigger issues) = late.map Given.answer ∧
      (Flight.mk d s (.ofIssues s trigger issues)).run early =
        ⟨d, s, .bringUp s (selectBy s trigger issues givens)⟩ ∧
      (Flight.mk d s (.bringUp s (selectBy s trigger issues givens))).Lasts late ∧
      ((Flight.mk d s (.bringUp s (selectBy s trigger issues givens))).run late).next =
        .deliver := by
  have hlookups : lookups trigger issues ≤ givens.length := by
    by_contra hfew
    obtain ⟨k, hk⟩ : ∃ k, lookups trigger issues = givens.length + (k + 1) :=
      ⟨lookups trigger issues - givens.length - 1, by omega⟩
    -- With the lookups that are left the flight would last longer.
    let more : Given := ⟨.empty, .ok ""⟩
    refine not_lasts_of_deliver hnext more (List.replicate k more) (run_ofIssues ?_).1
    rw [List.length_append, List.length_cons, List.length_replicate, hk]
  obtain ⟨early, late, rfl, hearly⟩ : ∃ early late, givens = early ++ late ∧
      early.length = lookups trigger issues :=
    ⟨_, _, (List.take_append_drop _ givens).symm, List.length_take_of_le hlookups⟩
  have hanswers : ((early ++ late).map Given.answer).drop (lookups trigger issues) =
      late.map Given.answer := by
    rw [List.map_append, List.drop_left' (by rw [List.length_map, hearly])]
  rw [selectBy_append s trigger late (Nat.le_of_eq hearly.symm)]
  have hrun := (run_ofIssues (d := d) (s := s) hearly).2
  have hlate := (lasts_append.1 hlasts).2
  rw [run_append] at hnext
  rw [hrun] at hlate hnext
  exact ⟨early, late, rfl, hearly, hanswers, hrun, hlate, hnext⟩

/-- When a cycle has only to deliver, the contexts of the issues that are brought up are ready. -/
theorem run_of_deliver (hlasts : (Flight.mk d s (.ofIssues s trigger issues)).Lasts givens)
    (hnext : ((Flight.mk d s (.ofIssues s trigger issues)).run givens).next = .deliver) :
    let chosen := selectBy s trigger issues givens
    let answers := (givens.map Given.answer).drop (lookups trigger issues)
    givens.length = lookups trigger issues + questions s chosen ∧
      (Flight.mk d s (.ofIssues s trigger issues)).run givens =
        ⟨d, s, .responding (contextsOf s chosen answers) []⟩ := by
  intro chosen answers
  obtain ⟨early, late, rfl, hearly, hanswers, hrun, hlate, hend⟩ :=
    exists_lookups_of_deliver hlasts hnext
  obtain ⟨hlength, hready⟩ := run_bringUp_of_deliver hlate hend
  have hanswers : answers = late.map Given.answer := hanswers
  rw [run_append, hrun, hready, List.length_append, hearly, hlength, hanswers]
  exact ⟨rfl, rfl⟩

end Launched

/-! ### Lookups that come out as before -/

/-- Each issue that the flight looks up is worth showing, or not, as it is by `l`. -/
def LooksUpIn (f : Flight) (l : Learning) : List Given → Prop
  | [] => True
  | g :: givens =>
    (∀ i, f.next = .lookUp i → g.learned.shows i = l.shows i) ∧ (f.goOn g).LooksUpIn l givens

/-- Then its lookups keep what is worth showing by `l`. -/
theorem keptBy_of_looksUpIn {l : Learning} {d : Document} {s : Settings} {kept unseen : List Issue}
    (h : (Flight.mk d s (.filter s kept unseen)).LooksUpIn l givens)
    (hlength : unseen.length ≤ givens.length) : keptBy unseen givens = unseen.filter l.shows := by
  induction unseen generalizing kept givens with
  | nil => rfl
  | cons i unseen ih =>
    cases givens with
    | nil => simp at hlength
    | cons g givens =>
      obtain ⟨hstep, hlater⟩ := h
      rw [goOn_filter] at hlater
      rw [keptBy_cons_cons, ih hlater (Nat.le_of_succ_le_succ hlength), hstep i rfl, List.filter_cons]
      split <;> rfl

/-- Then the issues to bring up are those that are selected by `l`. -/
theorem LooksUpIn.selectBy_eq {l : Learning} {d : Document} {s : Settings} {trigger : Trigger}
    {issues : List Issue}
    (h : (Flight.mk d s (.ofIssues s trigger issues)).LooksUpIn l givens)
    (hlength : lookups trigger issues ≤ givens.length) :
    selectBy s trigger issues givens = select l s trigger issues := by
  unfold selectBy select
  unfold Stage.ofIssues at h
  unfold lookups at hlength
  split
  · rfl
  · next hne =>
    rw [if_neg hne] at h hlength
    rw [keptBy_of_looksUpIn h hlength]

end Flight

end CodeCoach
