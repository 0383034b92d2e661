/-!
# Gates

A gate lets those who come through one permit each, first come first served.

* `Gate.arrive`, which takes a permit or joins the queue;
* `Gate.leave`, which leaves the queue;
* `Gate.release`, which hands out permits along the queue and keeps the rest.

A gate with one permit that everybody gives back is a lock.
-/

namespace CodeCoach

/-- Permits to hand out, and those who wait for one, the first in front. -/
structure Gate (α : Type) where
  permits : Nat
  queue : List α
  deriving DecidableEq, Repr

namespace Gate

variable {α : Type}

/-- No permits, and nobody who waits. -/
def empty : Gate α := ⟨0, []⟩

/-- A gate that lets one through at a time. -/
def lock : Gate α := ⟨1, []⟩

/-- Takes a permit, or else waits at the end of the queue. -/
def arrive (g : Gate α) (name : α) : Bool × Gate α :=
  match g.permits with
  | 0 => (false, { g with queue := g.queue ++ [name] })
  | n + 1 => (true, { g with permits := n })

/-- Waits no longer. -/
def leave [DecidableEq α] (g : Gate α) (name : α) : Gate α :=
  { g with queue := g.queue.filter (· != name) }

/-- Hands out permits. Returns those who got one, in the order in which they came. -/
def release (g : Gate α) (n : Nat) : List α × Gate α :=
  (g.queue.take n, ⟨g.permits + (n - g.queue.length), g.queue.drop n⟩)

theorem release_conserves (g : Gate α) (n : Nat) :
    (g.release n).1.length + (g.release n).2.permits = n + g.permits := by
  simp only [release, List.length_take]
  omega

theorem release_queue (g : Gate α) (n : Nat) :
    (g.release n).1 ++ (g.release n).2.queue = g.queue :=
  List.take_append_drop n g.queue

end Gate

end CodeCoach
