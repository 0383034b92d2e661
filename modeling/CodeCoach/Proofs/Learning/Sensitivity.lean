import CodeCoach.Proofs.Decimal.Number
import CodeCoach.Proofs.Learning.Log

/-!
# Sensitivities do not drift

Every sensitivity that feedback leads to is a whole number of hundredths, and the steps are those of
the whole numbers.

* `Sensitivity.hundredths`, a number of hundredths as a float, and `Sensitivity.grid`, the numbers
  that occur;
* `Sensitivity.stepHundredths`, one step in whole numbers, and `Sensitivity.after_hundredths`;
* `Sensitivity.InBounds`, the numbers from the least to the greatest, and
  `Sensitivity.inBounds_after`: a step from any number leads there;
* `Learning.sensitivity_learnAll`: the sensitivity to a kind, read off the log.
-/

namespace CodeCoach

namespace Sensitivity

/-- A number of hundredths. -/
def hundredths (h : Nat) : Float := Float.ofNat h / 100.0

/-- The numbers of hundredths from the least to the greatest, in steps of five. -/
def grid : List Nat := (List.range 15).map fun k => 30 + 5 * k

theorem mem_grid {h : Nat} : h ∈ grid ↔ 30 ≤ h ∧ h ≤ 100 ∧ h % 5 = 0 := by
  simp only [grid, List.mem_map, List.mem_range]
  constructor
  · rintro ⟨k, hk, rfl⟩
    omega
  · rintro ⟨h30, h100, h5⟩
    exact ⟨(h - 30) / 5, by omega, by omega⟩

/-- One step in whole hundredths. -/
def stepHundredths (h : Nat) : Action → Nat
  | .dismissed => max 30 (h - 10)
  | .accepted => min 100 (h + 5)
  | .modified => h

theorem stepHundredths_mem_grid {h : Nat} (hh : h ∈ grid) (a : Action) :
    stepHundredths h a ∈ grid := by
  rw [mem_grid] at hh ⊢
  cases a <;> simp only [stepHundredths] <;> omega

/-- The float arithmetic of a step, at each of the numbers that occur. -/
theorem after_eq_on_grid : ∀ h ∈ grid, ∀ a ∈ Action.all,
    after (some (hundredths h)) a = hundredths (stepHundredths h a) := by decide +kernel

theorem after_hundredths {h : Nat} (hh : h ∈ grid) (a : Action) :
    after (some (hundredths h)) a = hundredths (stepHundredths h a) :=
  after_eq_on_grid h hh a (by cases a <;> decide)

theorem initial_eq : initial = hundredths 100 := by decide +kernel

/-- What is not known counts as the greatest number. -/
theorem after_none (a : Action) : after none a = after (some (hundredths 100)) a := by
  rw [← initial_eq]
  rfl

/-- The number of hundredths after some actions, of which there is at least one. -/
def ofActions? (actions : List Action) : Option Nat :=
  if actions.isEmpty then none else some (actions.foldl stepHundredths 100)

theorem foldl_mem_grid (actions : List Action) : actions.foldl stepHundredths 100 ∈ grid := by
  induction actions using List.reverseRecOn with
  | nil => decide
  | append_singleton actions a ih =>
    rw [List.foldl_append]
    exact stepHundredths_mem_grid ih a

theorem mem_grid_of_ofActions? {actions : List Action} {h : Nat} (hh : ofActions? actions = some h) :
    h ∈ grid := by
  unfold ofActions? at hh
  split at hh
  · cases hh
  · obtain rfl := Option.some.inj hh
    exact foldl_mem_grid actions

theorem ofActions?_concat (actions : List Action) (a : Action) :
    (ofActions? (actions ++ [a])).map hundredths =
      some (after ((ofActions? actions).map hundredths) a) := by
  have hconcat : ofActions? (actions ++ [a]) =
      some (stepHundredths (actions.foldl stepHundredths 100) a) := by
    simp [ofActions?]
  rw [hconcat, Option.map_some, ← after_hundredths (foldl_mem_grid actions)]
  cases actions with
  | nil => exact congrArg some (after_none a).symm
  | cons b actions => rfl

/-! ### Bounds -/

/-- The number is neither below the least nor above the greatest one. -/
def InBounds (x : Float) : Prop := least ≤ x ∧ x ≤ greatest

theorem inBounds_hundredths : ∀ h ∈ grid, InBounds (hundredths h) := by
  unfold InBounds
  decide +kernel

theorem isNaN_step {x : Float} (hx : x.isNaN = false) (a : Action) : (step x a).isNaN = false := by
  cases a with
  | dismissed => exact isNaN_sub hx (by decide +kernel)
  | accepted => exact isNaN_add hx (by decide +kernel)
  | modified => exact hx

theorem isNaN_toHundredths {x : Float} (hx : x.isNaN = false) : (toHundredths x).isNaN = false := by
  have hhundred : isOrdinary 100.0 := by decide +kernel
  exact isNaN_div (isNaN_roundHalfAway (isNaN_mul hx hhundred)) hhundred

theorem inBounds_clamp {x : Float} (hx : x.isNaN = false) : InBounds (clamp x) := by
  unfold clamp
  split
  · exact ⟨by decide +kernel, by decide +kernel⟩
  · next hleast =>
    split
    · exact ⟨by decide +kernel, by decide +kernel⟩
    · next hgreatest =>
      exact ⟨le_of_not_lt hx (by decide +kernel) hleast,
        le_of_not_lt (by decide +kernel) hx hgreatest⟩

/-- One step from any number, however far out, leads into the bounds. -/
theorem inBounds_after {known : Option Float} (h : ∀ x ∈ known, x.isNaN = false) (a : Action) :
    InBounds (after known a) := by
  refine inBounds_clamp (isNaN_toHundredths (isNaN_step ?_ a))
  cases known with
  | none =>
    show initial.isNaN = false
    decide +kernel
  | some x => exact h x rfl

end Sensitivity

namespace Learning

/-- The actions on findings of one kind. -/
def actionsOn (kind : Kind) (fs : List Feedback) : List Action :=
  (fs.filter fun f => f.kind == kind).map Feedback.action

theorem actionsOn_concat (kind : Kind) (fs : List Feedback) (f : Feedback) :
    actionsOn kind (fs ++ [f]) = actionsOn kind fs ++ if f.kind = kind then [f.action] else [] := by
  by_cases h : f.kind = kind <;> simp [actionsOn, List.filter_append, h]

theorem sensitivity_learnAll (fs : List Feedback) (kind : Kind) :
    (empty.learnAll fs).rules.sensitivity.get kind =
      (Sensitivity.ofActions? (actionsOn kind fs)).map Sensitivity.hundredths := by
  induction fs using List.reverseRecOn with
  | nil => exact PerKind.get_const none kind
  | append_singleton fs f ih =>
    rw [learnAll_concat, actionsOn_concat]
    simp only [learn, Rules.after]
    rw [PerKind.get_set]
    -- The feedback moves the sensitivity to its own kind, and is counted for that kind alone.
    by_cases h : kind = f.kind
    · rw [if_pos h, if_pos h.symm, Sensitivity.ofActions?_concat, ← ih, h]
    · rw [if_neg h, if_neg (Ne.symm h), List.append_nil, ih]

end Learning

end CodeCoach
