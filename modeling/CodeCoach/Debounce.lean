/-!
# Debounce

Actions wait for a quiet moment.  Each key has at most one waiting action; scheduling another for
the key replaces it, and an action begins when its delay has passed.  Once begun, an action is out
of reach: nothing that happens to its key can stop it.

* `Waiting`, `Debouncer`, the actions that wait on a clock that counts milliseconds;
* `longestDelay`, which stands for any delay that is longer;
* `Debouncer.schedule`, `Debouncer.cancel`, `Debouncer.cancelAll`;
* `Debouncer.advance`, which moves the clock and returns the actions that begin, each with its time,
  the earliest first and those of one time in the order in which they were scheduled.
-/

namespace CodeCoach

/-- An action that begins at the time `due`. -/
structure Waiting (α : Type) where
  key : String
  due : Nat
  action : α
  deriving DecidableEq, Repr

/-- The time, and the actions that wait, in the order in which they were scheduled. -/
structure Debouncer (α : Type) where
  now : Nat
  waiting : List (Waiting α)
  deriving DecidableEq, Repr

/-- The longest time that is waited for, thirty years of 365 days. The limit is that of the timer of
the runtime, which cuts a longer delay; the debouncer itself sets none. -/
def longestDelay : Nat := 30 * 365 * 86400000

/-- The time at which a delay from `start` on is over. -/
def endOfDelay (start delay : Nat) : Nat := start + min delay longestDelay

namespace Debouncer

variable {α : Type}

/-- Nothing waits at time zero. -/
def empty : Debouncer α := ⟨0, []⟩

/-- The actions of all keys but one. -/
def others (key : String) (ws : List (Waiting α)) : List (Waiting α) :=
  ws.filter fun w => w.key != key

/-- Lets an action wait in place of the one that waits for the key, if one does. -/
def schedule (d : Debouncer α) (key : String) (delay : Nat) (action : α) : Debouncer α :=
  { d with waiting := others key d.waiting ++ [⟨key, endOfDelay d.now delay, action⟩] }

/-- Drops the action that waits for a key, and says whether there was one. -/
def cancel (d : Debouncer α) (key : String) : Bool × Debouncer α :=
  (d.waiting.any fun w => w.key == key, { d with waiting := others key d.waiting })

/-- Drops every waiting action. -/
def cancelAll (d : Debouncer α) : Debouncer α := { d with waiting := [] }

/-- The number of keys with a waiting action. -/
def pending (d : Debouncer α) : Nat := d.waiting.length

/-- The actions that are due at a time, in the order in which they begin. -/
def dueBy (ws : List (Waiting α)) (time : Nat) : List (Waiting α) :=
  (ws.filter fun w => w.due ≤ time).mergeSort fun a b => a.due ≤ b.due

/-- Moves the clock on, and returns the actions that begin on the way. -/
def advance (d : Debouncer α) (ms : Nat) : List (Waiting α) × Debouncer α :=
  let time := d.now + ms
  (dueBy d.waiting time, ⟨time, d.waiting.filter fun w => time < w.due⟩)

@[simp] theorem pending_cancelAll (d : Debouncer α) : d.cancelAll.pending = 0 := rfl

end Debouncer

/-! ### Actions that take time -/

/-- An action with a name that takes some time, if any is given. -/
structure Chore where
  name : String
  work : Option Nat
  deriving DecidableEq, Repr

/-- An entry of the log that chores leave: a time and a text. -/
abbrev LogEntry := Nat × String

/-- Chores behind a debounce, together with the ends of those that have begun. -/
structure Schedule where
  timers : Debouncer Chore
  /-- The entries that begun chores have still to make. -/
  ending : List LogEntry
  deriving DecidableEq, Repr

namespace Schedule

def empty : Schedule := ⟨.empty, []⟩

/-- What a chore logs when it begins. -/
def onBegin (w : Waiting Chore) : LogEntry :=
  (w.due, if w.action.work.isSome then w.action.name ++ ":begin" else w.action.name)

/-- What a chore that takes time logs when it ends. -/
def onEnd (w : Waiting Chore) : Option LogEntry :=
  w.action.work.map fun ms => (endOfDelay w.due ms, w.action.name)

/-- The entry comes no later: by time, and then by text. -/
def notAfter (a b : LogEntry) : Bool := a.1 < b.1 || (a.1 == b.1 && a.2 ≤ b.2)

/-- Moves the clock on, and returns the log of that time in order. -/
def advance (s : Schedule) (ms : Nat) : List LogEntry × Schedule :=
  let (begun, timers) := s.timers.advance ms
  let ending := s.ending ++ begun.filterMap onEnd
  let log := begun.map onBegin ++ ending.filter fun e => e.1 ≤ timers.now
  (log.mergeSort notAfter, ⟨timers, ending.filter fun e => timers.now < e.1⟩)

end Schedule

end CodeCoach
