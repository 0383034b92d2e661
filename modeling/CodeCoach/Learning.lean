import CodeCoach.Decimal.Whole
import CodeCoach.Feedback
import CodeCoach.Sorted

/-!
# What is learned from feedback

* `PerKind`, a value for each kind of issue;
* `Sensitivity`, a number for each kind of which there has been feedback: it falls with every
  dismissal and rises with every acceptance, between a least and a greatest value;
* `LearnedPattern`, how often and how last a pattern was reacted to;
* `Rules`, the patterns that are suppressed and preferred, and the sensitivities;
* `Learning`, the history, the patterns and the rules; `Learning.learn` takes in one feedback and
  `Learning.shows` says whether an issue is still worth showing.

A pattern is suppressed by a dismissal that is at least the third feedback on it, and stays so.
-/

namespace CodeCoach

/-! ### A value for each kind -/

/-- A value for each kind of issue. -/
structure PerKind (α : Type) where
  bug : α
  security : α
  performance : α
  style : α
  accessibility : α
  codeSmell : α
  deriving DecidableEq, Repr

namespace PerKind

variable {α : Type}

/-- The same value for all kinds. -/
def const (a : α) : PerKind α := ⟨a, a, a, a, a, a⟩

def get (p : PerKind α) : Kind → α
  | .bug => p.bug
  | .security => p.security
  | .performance => p.performance
  | .style => p.style
  | .accessibility => p.accessibility
  | .codeSmell => p.codeSmell

def set (p : PerKind α) (kind : Kind) (a : α) : PerKind α :=
  match kind with
  | .bug => { p with bug := a }
  | .security => { p with security := a }
  | .performance => { p with performance := a }
  | .style => { p with style := a }
  | .accessibility => { p with accessibility := a }
  | .codeSmell => { p with codeSmell := a }

@[simp] theorem get_const (a : α) (kind : Kind) : (const a).get kind = a := by cases kind <;> rfl

theorem get_set (p : PerKind α) (kind other : Kind) (a : α) :
    (p.set kind a).get other = if other = kind then a else p.get other := by
  cases kind <;> cases other <;> rfl

theorem ext_get {p q : PerKind α} (h : ∀ kind, p.get kind = q.get kind) : p = q := by
  obtain ⟨a, b, c, d, e, f⟩ := p
  obtain ⟨a', b', c', d', e', f'⟩ := q
  have h1 := h .bug
  have h2 := h .security
  have h3 := h .performance
  have h4 := h .style
  have h5 := h .accessibility
  have h6 := h .codeSmell
  simp only [get] at h1 h2 h3 h4 h5 h6
  simp [h1, h2, h3, h4, h5, h6]

end PerKind

/-! ### Sensitivity -/

namespace Sensitivity

/-- The sensitivity to a kind without feedback. -/
def initial : Float := 1.0

def least : Float := 0.3

def greatest : Float := 1.0

/-- Issues of a kind to which the sensitivity is lower are hidden, unless they are critical. -/
def cutoff : Float := 0.5

/-- Rounds to two decimals, so that repeated steps do not drift. -/
def toHundredths (x : Float) : Float := Decimal.roundHalfAway (x * 100.0) / 100.0

/-- The number itself, or the nearer bound where it is out of bounds. -/
def clamp (x : Float) : Float :=
  if x < least then least else if greatest < x then greatest else x

/-- One step down, up or nowhere. -/
def step (x : Float) : Action → Float
  | .dismissed => x - 0.1
  | .accepted => x + 0.05
  | .modified => x

/-- The sensitivity after one more action, where some number or none was known before. -/
def after (known : Option Float) (action : Action) : Float :=
  clamp (toHundredths (step (known.getD initial) action))

end Sensitivity

/-! ### Patterns and rules -/

/-- All feedback on one pattern. -/
structure LearnedPattern where
  patternKey : String
  kind : Kind
  reaction : Reaction
  occurrences : Nat
  lastUpdated : Instant
  deriving DecidableEq, Repr

/-- The greatest number of occurrences that is told apart from greater ones. -/
def LearnedPattern.mostOccurrences : Nat := 0xFFFFFFFF

/-- The number of feedbacks on a pattern from which on a dismissal suppresses it. -/
def LearnedPattern.suppressedFrom : Nat := 3

/-- The pattern after one more feedback on it, where it was known before or not. -/
def LearnedPattern.after (known : Option LearnedPattern) (f : Feedback) : LearnedPattern where
  patternKey := f.patternKey
  kind := (known.map LearnedPattern.kind).getD f.kind
  reaction := f.action.reaction
  occurrences := min ((known.map LearnedPattern.occurrences).getD 0 + 1) mostOccurrences
  lastUpdated := f.time

/-- What decides whether an issue is shown. -/
structure Rules where
  suppressed : NameSet
  preferred : NameSet
  sensitivity : PerKind (Option Float)

namespace Rules

def empty : Rules := ⟨.empty, .empty, .const none⟩

/-- The sensitivity to a kind. -/
def sensitivityTo (r : Rules) (kind : Kind) : Float :=
  (r.sensitivity.get kind).getD Sensitivity.initial

/-- The rules after one more feedback, on a pattern with the given number of occurrences. -/
def after (r : Rules) (f : Feedback) (occurrences : Nat) : Rules where
  suppressed :=
    if f.action == .dismissed && LearnedPattern.suppressedFrom ≤ occurrences then
      r.suppressed.insert f.patternKey
    else r.suppressed
  preferred :=
    if f.action == .accepted then r.preferred.insert f.patternKey else r.preferred
  sensitivity :=
    r.sensitivity.set f.kind (some (Sensitivity.after (r.sensitivity.get f.kind) f.action))

/-- Whether an issue is shown. Suppression counts even for critical issues, a low sensitivity does
not. -/
def shows (r : Rules) (i : Issue) : Bool :=
  !r.suppressed.contains i.patternKey &&
    !(r.sensitivityTo i.kind < Sensitivity.cutoff && i.severity != .critical)

end Rules

/-! ### Learning -/

/-- The recent feedback, and what all feedback has taught. Patterns are in the order of their
keys. -/
structure Learning where
  history : List Feedback
  patterns : List LearnedPattern
  rules : Rules

namespace Learning

/-- Nothing has been learned. -/
def empty : Learning := ⟨[], [], .empty⟩

/-- The most feedback that is remembered. -/
def historyLength : Nat := 1000

/-- The newest feedback, as much as is remembered. -/
def newest (history : List Feedback) : List Feedback :=
  history.drop (history.length - historyLength)

/-- The pattern of a key. -/
def pattern? (l : Learning) (key : String) : Option LearnedPattern :=
  Sorted.find? LearnedPattern.patternKey key l.patterns

/-- Takes in one feedback. -/
def learn (l : Learning) (f : Feedback) : Learning :=
  let pattern := LearnedPattern.after (l.pattern? f.patternKey) f
  { history := newest (l.history ++ [f])
    patterns := Sorted.put LearnedPattern.patternKey pattern l.patterns
    rules := l.rules.after f pattern.occurrences }

/-- Takes in feedback in order. -/
def learnAll (l : Learning) (fs : List Feedback) : Learning := fs.foldl learn l

def shows (l : Learning) (i : Issue) : Bool := l.rules.shows i

def stats (l : Learning) : Stats := .ofHistory l.history

end Learning

end CodeCoach
