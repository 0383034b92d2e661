import CodeCoach.Instant
import CodeCoach.Review
import CodeCoach.Table

/-!
# Cooldown

At most one review of a document is let through in a window of time.  A review that is refused
leaves no trace, so it does not lengthen the wait.

* `Cooldown`, the window and the last review of each key that was let through;
* `Cooldown.remaining`, the time a key has to wait, and `Cooldown.tryBegin`, which lets a review
  through when that is none;
* `RatedReview`, the review of documents behind a cooldown.

Spans of time are counted in nanoseconds.
-/

namespace CodeCoach

/-- The longest span of time: as many milliseconds as fit 63 bits. -/
def longestSpan : Int := 0x7FFFFFFFFFFFFFFF * 1000000

/-- The most whole seconds of which the milliseconds fit 63 bits. -/
def longestSeconds : Nat := 0x7FFFFFFFFFFFFFFF / 1000

/-- The span of a number of seconds; one that is too long becomes the longest span. -/
def spanOfSeconds (seconds : Nat) : Int :=
  if seconds ≤ longestSeconds then (seconds : Int) * nanosPerSecond else longestSpan

/-- The last review of each key, and the window that has to pass before the next. -/
structure Cooldown where
  window : Int
  passes : Table String Instant
  deriving DecidableEq, Repr

namespace Cooldown

/-- The window of a cooldown that is given no other, in seconds. -/
def defaultSeconds : Nat := 20

/-- A cooldown that has let nothing through yet. -/
def ofSeconds (seconds : Nat) : Cooldown := ⟨spanOfSeconds seconds, .empty⟩

/-- The window in whole seconds. -/
def windowSeconds (c : Cooldown) : Nat := (c.window / nanosPerSecond).toNat

/-- Changes the window and keeps the reviews that were let through. -/
def setWindow (c : Cooldown) (seconds : Nat) : Cooldown :=
  { c with window := spanOfSeconds seconds }

/-- The last review of a key that was let through. -/
def lastPass (c : Cooldown) (key : String) : Option Instant := c.passes.get? key

/-- The time that is left of a window, where some is. A rest that is too long to be a span counts
as the whole window. -/
def leftOf (window elapsed : Int) : Option Int :=
  if elapsed < window then
    some (if window - elapsed ≤ longestSpan then window - elapsed else window)
  else none

/-- The time before a key may be reviewed again, or none if it may be now. -/
def remaining (c : Cooldown) (key : String) (now : Instant) : Option Int :=
  (c.lastPass key).bind fun last => leftOf c.window (now.since last)

/-- Forgets the last review of a key. -/
def clear (c : Cooldown) (key : String) : Cooldown := { c with passes := c.passes.erase key }

/-- Records a review of a key. -/
def record (c : Cooldown) (key : String) (now : Instant) : Cooldown :=
  { c with passes := c.passes.set key now }

/-- Lets a review of a key through, or refuses it. -/
def tryBegin (c : Cooldown) (key : String) (now : Instant) : Bool × Cooldown :=
  if (c.remaining key now).isSome then (false, c) else (true, c.record key now)

/-! ### The last review of a key -/

theorem lastPass_clear (c : Cooldown) (key other : String) :
    (c.clear key).lastPass other = if other = key then none else c.lastPass other :=
  c.passes.get?_erase key other

theorem lastPass_record (c : Cooldown) (key other : String) (now : Instant) :
    (c.record key now).lastPass other = if other = key then some now else c.lastPass other :=
  c.passes.get?_set key other now

@[simp] theorem lastPass_setWindow (c : Cooldown) (seconds : Nat) (key : String) :
    (c.setWindow seconds).lastPass key = c.lastPass key := rfl

theorem tryBegin_fst (c : Cooldown) (key : String) (now : Instant) :
    (c.tryBegin key now).1 = (c.remaining key now).isNone := by
  unfold tryBegin
  cases c.remaining key now <;> rfl

theorem tryBegin_of_remaining {c : Cooldown} {key : String} {now : Instant}
    (h : (c.remaining key now).isSome = true) : c.tryBegin key now = (false, c) := by
  simp [tryBegin, h]

end Cooldown

/-! ### Reviews behind a cooldown -/

/-- A cooldown keyed by the paths of documents. -/
structure RatedReview where
  cooldown : Cooldown

namespace RatedReview

def ofSeconds (seconds : Nat) : RatedReview := ⟨Cooldown.ofSeconds seconds⟩

/-- The issues of a document, or none where it is cooling down. -/
def review (r : RatedReview) (d : Document) (now : Instant) : Option (List Issue) × RatedReview :=
  let (admitted, cooldown) := r.cooldown.tryBegin d.path now
  (if admitted then some (Review.ofDocument d) else none, ⟨cooldown⟩)

end RatedReview

end CodeCoach
