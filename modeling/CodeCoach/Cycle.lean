import CodeCoach.Enhancer
import CodeCoach.Intervention
import CodeCoach.Learning
import CodeCoach.Settings

/-!
# Review cycles

A cycle finds the issues of a document, selects those to bring up, puts them into words and delivers
them.  It is in flight while it looks up the issues one by one, each in what has been learned by then,
and while the enhancer has questions to answer.

* `Trigger`, what starts a cycle, and `Refusal`, why it may not start;
* `lookups`, `limited`, `select`, the issues to look up and those to bring up;
* `Stage`, how far a cycle has come;
* `Flight`, a cycle between its start and its delivery, and `Step`, what it does next.
-/

namespace CodeCoach

/-- What starts a cycle. -/
inductive Trigger
  | change
  | save
  /-- A request for a review. -/
  | onDemand
  deriving DecidableEq, Repr

namespace Trigger

def all : List Trigger := [change, save, onDemand]

def name : Trigger → String
  | change => "change"
  | save => "save"
  | onDemand => "on-demand"

def ofName? (s : String) : Option Trigger := all.find? (·.name == s)

end Trigger

/-- Why a cycle does not start. -/
inductive Refusal
  /-- Nobody asked for it, and the coach is not to act on its own. -/
  | disabled
  /-- A cycle for the document is in flight. -/
  | busy
  /-- The last cycle for the document was too recent. -/
  | coolingDown
  deriving DecidableEq, Repr

/-- How a cycle ends. -/
inductive Outcome
  | delivered (interventions : List Intervention)
  | refused (reason : Refusal)
  deriving DecidableEq, Repr

namespace Outcome

def name : Outcome → String
  | delivered _ => "delivered"
  | refused .disabled => "disabled"
  | refused .busy => "busy"
  | refused .coolingDown => "cooling-down"

def interventions : Outcome → List Intervention
  | delivered list => list
  | refused _ => []

end Outcome

/-- Where the cycle of a document stands. -/
inductive Phase
  | idle
  /-- Not all issues have been looked up yet. -/
  | filtering
  /-- The enhancer has not answered all questions yet. -/
  | responding
  deriving DecidableEq, Repr

def Phase.name : Phase → String
  | idle => "idle"
  | filtering => "filtering"
  | responding => "responding"

/-- The number of issues to look up in what has been learned, of those that were found. -/
def lookups (trigger : Trigger) (issues : List Issue) : Nat :=
  if trigger == .onDemand then 0 else issues.length

/-- The issues to bring up of those that are worth showing: no more than so many, of those that the
frequency allows. -/
def limited (s : Settings) (shown : List Issue) : List Issue :=
  truncateBySeverity (shown.filter s.frequency.allows) s.maxSuggestions

theorem length_limited_le (s : Settings) (shown : List Issue) :
    (limited s shown).length ≤ shown.length := by
  rw [limited, length_truncateBySeverity]
  exact Nat.le_trans (Nat.min_le_right _ _) (List.length_filter_le _ _)

theorem mem_of_mem_limited {s : Settings} {shown : List Issue} {i : Issue}
    (h : i ∈ limited s shown) : i ∈ shown := by
  have hsorted := List.mem_of_mem_take h
  rw [bySeverity, List.mem_mergeSort] at hsorted
  exact (List.mem_filter.1 hsorted).1

/-- The issues to bring up, if all of them are looked up in `l`. A review on demand leaves out only
what the frequency does not allow; any other one also respects what has been learned, and brings up
no more than so many. -/
def select (l : Learning) (s : Settings) (trigger : Trigger) (issues : List Issue) : List Issue :=
  if trigger == .onDemand then issues.filter s.frequency.allows
  else limited s (issues.filter l.shows)

/-! ### Stages -/

/-- How far a cycle has come. -/
inductive Stage
  /-- An issue is looked up next; of those before it, some were kept, and others come after it. -/
  | filtering (kept : List Issue) (issue : Issue) (unseen : List Issue)
  /-- Contexts are ready, and about the rest of the issues the enhancer has still to answer. -/
  | responding (ready : List Context) (rest : List Issue)
  deriving DecidableEq, Repr

namespace Stage

/-- The stage for issues to bring up. The enhancer is asked about each of them or about none. -/
def bringUp (s : Settings) (issues : List Issue) : Stage :=
  .responding (if s.enhance then [] else issues.map Issue.context) (if s.enhance then issues else [])

/-- The stage after some lookups: there is another one, or the issues to bring up are known. -/
def filter (s : Settings) (kept : List Issue) : List Issue → Stage
  | [] => bringUp s (limited s kept)
  | i :: unseen => .filtering kept i unseen

/-- The stage of a cycle that has found issues. -/
def ofIssues (s : Settings) (trigger : Trigger) (issues : List Issue) : Stage :=
  if trigger == .onDemand then bringUp s (issues.filter s.frequency.allows) else filter s [] issues

/-- A bound on the number of steps to the end, with the delivery. It is the number of steps once the
issues to bring up are known. -/
def stepsLeft : Stage → Nat
  | filtering kept _ unseen => kept.length + 2 * (unseen.length + 1) + 1
  | responding _ rest => rest.length + 1

theorem stepsLeft_bringUp (s : Settings) (issues : List Issue) :
    (bringUp s issues).stepsLeft ≤ issues.length + 1 := by
  simp only [bringUp, stepsLeft]
  split
  · exact Nat.le_refl _
  · exact Nat.succ_le_succ (Nat.zero_le _)

theorem stepsLeft_filter (s : Settings) (kept unseen : List Issue) :
    (filter s kept unseen).stepsLeft ≤ kept.length + 2 * unseen.length + 1 := by
  cases unseen with
  | nil =>
    have hlimited := length_limited_le s kept
    have hsteps := stepsLeft_bringUp s (limited s kept)
    simp only [filter, List.length_nil]
    omega
  | cons i unseen => exact Nat.le_refl _

end Stage

/-! ### Flights -/

/-- A step of a cycle. -/
inductive Step
  /-- Looks up whether an issue is worth showing. -/
  | lookUp (issue : Issue)
  /-- Puts a question to the enhancer. -/
  | ask (question : Question)
  /-- Delivers the interventions. -/
  | deliver
  deriving DecidableEq, Repr

/-- A cycle that was let through and has not delivered yet. -/
structure Flight where
  document : Document
  /-- The settings that were active when the cycle started. -/
  settings : Settings
  stage : Stage
  deriving DecidableEq, Repr

namespace Flight

/-- What comes next: first the lookups, then the questions. -/
def next (f : Flight) : Step :=
  match f.stage with
  | .filtering _ i _ => .lookUp i
  | .responding _ [] => .deliver
  | .responding _ (i :: _) => .ask (i.question f.document.languageTag)

/-- A bound on the number of steps to the end, with the delivery. -/
def stepsLeft (f : Flight) : Nat := f.stage.stepsLeft

/-- The flight after its next lookup, which keeps the issue if it is worth showing by what has been
learned. -/
def lookUp (f : Flight) (l : Learning) : Flight :=
  match f.stage with
  | .filtering kept i unseen =>
    { f with stage := .filter f.settings (if l.shows i then kept ++ [i] else kept) unseen }
  | .responding .. => f

/-- The flight after the answer to its next question. -/
def receive (f : Flight) (a : Answer) : Flight :=
  match f.stage with
  | .responding ready (i :: rest) =>
    { f with stage := .responding (ready ++ [i.enhancedContext a]) rest }
  | .responding _ [] => f
  | .filtering .. => f

/-- The contexts that are ready, in order. -/
def ready (f : Flight) : List Context :=
  match f.stage with
  | .filtering .. => []
  | .responding ready _ => ready

/-- The interventions for the contexts that are ready, in the voice that was active when the cycle
started, with identifiers from the position `start` on. -/
def interventions (f : Flight) (ids : Nat → String) (start : Nat) (now : Instant) :
    List Intervention :=
  f.ready.mapIdx fun k context => Intervention.create (ids (start + k)) f.settings.voice context now

@[simp] theorem document_lookUp (f : Flight) (l : Learning) :
    (f.lookUp l).document = f.document := by
  unfold lookUp
  split <;> rfl

@[simp] theorem document_receive (f : Flight) (a : Answer) :
    (f.receive a).document = f.document := by
  unfold receive
  split <;> rfl

theorem stepsLeft_pos (f : Flight) : 0 < f.stepsLeft := by
  unfold stepsLeft Stage.stepsLeft
  split <;> exact Nat.succ_pos _

theorem next_eq_deliver_iff (f : Flight) : f.next = .deliver ↔ f.stepsLeft = 1 := by
  unfold next stepsLeft Stage.stepsLeft
  rcases f.stage with ⟨kept, i, unseen⟩ | ⟨ready, _ | ⟨i, rest⟩⟩
  · simp
  · simp
  · simp

theorem stepsLeft_lookUp {f : Flight} {i : Issue} (h : f.next = .lookUp i) (l : Learning) :
    (f.lookUp l).stepsLeft + 1 ≤ f.stepsLeft := by
  unfold lookUp
  rcases hstage : f.stage with ⟨kept, j, unseen⟩ | ⟨ready, _ | ⟨j, rest⟩⟩
  · have hkept : (if l.shows j then kept ++ [j] else kept).length ≤ kept.length + 1 := by
      split <;> simp
    have hsteps := Stage.stepsLeft_filter f.settings (if l.shows j then kept ++ [j] else kept) unseen
    simp only [stepsLeft, hstage, Stage.stepsLeft] at hsteps ⊢
    omega
  · simp [next, hstage] at h
  · simp [next, hstage] at h

theorem stepsLeft_receive {f : Flight} {q : Question} (h : f.next = .ask q) (a : Answer) :
    (f.receive a).stepsLeft + 1 = f.stepsLeft := by
  unfold receive
  rcases hstage : f.stage with ⟨kept, j, unseen⟩ | ⟨ready, _ | ⟨j, rest⟩⟩
  · simp [next, hstage] at h
  · simp [next, hstage] at h
  · simp only [stepsLeft, hstage, Stage.stepsLeft, List.length_cons]

end Flight

end CodeCoach
