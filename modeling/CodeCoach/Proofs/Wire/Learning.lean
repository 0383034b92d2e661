import CodeCoach.Proofs.Instant.Read
import CodeCoach.Proofs.Json.Reader
import CodeCoach.Proofs.Wire.Feedback

/-!
# What is read about feedback can be written

* `Instant.gives_ofJson?`: a time that is read is a proper one;
* `Feedback.gives_ofJson?`, `LearnedPattern.gives_ofJson?`, `Rules.gives_ofJson?`;
* `Stats.ofJson?_toJson`, `Stats.gives_ofJson?`.
-/

namespace CodeCoach

open Json

theorem Instant.gives_ofJson? : Gives Instant.ofJson? Instant.Proper := by
  intro j t _ h
  cases j with
  | str s => exact proper_of_parse? h
  | _ => cases h

/-! ### Feedback and patterns -/

/-- The time is proper. -/
def Feedback.Fits (f : Feedback) : Prop := f.time.Proper

theorem Feedback.gives_ofJson? : Gives Feedback.ofJson? Feedback.Fits := by
  intro j f hj h
  simp only [ofJson?, Option.bind_eq_bind, Option.bind_eq_some_iff] at h
  obtain ⟨r, hr, _, -, _, -, _, -, time, htime, _, -, _, -, h⟩ := h
  cases h
  exact Instant.gives_ofJson?.of_required (Record.bounded_of_record? hj hr) htime

/-- The time is proper and the occurrences have 32 bits. -/
def LearnedPattern.Fits (p : LearnedPattern) : Prop :=
  p.lastUpdated.Proper ∧ p.occurrences ≤ mostOccurrences

theorem LearnedPattern.gives_ofJson? : Gives LearnedPattern.ofJson? LearnedPattern.Fits := by
  intro j p hj h
  simp only [ofJson?, Option.bind_eq_bind, Option.bind_eq_some_iff] at h
  obtain ⟨r, hr, _, -, _, -, _, -, occurrences, hoccurrences, time, htime, h⟩ := h
  cases h
  have hr := Record.bounded_of_record? hj hr
  exact ⟨Instant.gives_ofJson?.of_required hr htime,
    Nat.le_of_lt_succ ((gives_natBelow _).of_required hr hoccurrences)⟩

/-! ### Rules -/

/-- The sensitivities are finite. -/
def Rules.Fits (r : Rules) : Prop := ∀ kind x, r.sensitivity.get kind = some x → x.isFinite

theorem Sensitivity.isFinite_of_foldlM {fields : List (String × Json)}
    (hfields : ∀ f ∈ fields, f.2.Bounded) {p q : PerKind (Option Float)}
    (hp : ∀ kind x, p.get kind = some x → x.isFinite) (h : fields.foldlM readField p = some q) :
    ∀ kind x, q.get kind = some x → x.isFinite := by
  induction fields generalizing p with
  | nil =>
    cases h
    exact hp
  | cons f fields ih =>
    rw [List.foldlM_cons, Option.bind_eq_bind, Option.bind_eq_some_iff] at h
    obtain ⟨next, hnext, h⟩ := h
    refine ih (fun g hg => hfields g (List.mem_cons_of_mem f hg)) ?_ h
    simp only [readField, Option.bind_eq_bind, Option.bind_eq_some_iff] at hnext
    obtain ⟨kind, -, x, hx, hnext⟩ := hnext
    cases hnext
    have hx := gives_float f.2 x (hfields f List.mem_cons_self) hx
    intro other y hy
    rw [PerKind.get_set] at hy
    split at hy
    · cases hy
      exact hx
    · exact hp other y hy

theorem Sensitivity.gives_ofJson? :
    Gives Sensitivity.ofJson? fun p => ∀ kind x, p.get kind = some x → x.isFinite := by
  intro j p hj h
  cases hj with
  | obj hfields =>
    refine isFinite_of_foldlM hfields (fun kind x hx => ?_) h
    rw [PerKind.get_const] at hx
    cases hx
  | _ => cases h

theorem Rules.gives_ofJson? : Gives Rules.ofJson? Rules.Fits := by
  intro j rules hj h
  simp only [ofJson?, Option.bind_eq_bind, Option.bind_eq_some_iff] at h
  obtain ⟨r, hr, _, -, _, -, sensitivity, hsensitivity, h⟩ := h
  cases h
  refine Sensitivity.gives_ofJson?.of_defaulted (Record.bounded_of_record? hj hr)
    (fun kind x hx => ?_) hsensitivity
  rw [PerKind.get_const] at hx
  cases hx

/-! ### Statistics -/

/-- The counts have 64 bits and the rate is finite. -/
structure Stats.Fits (s : Stats) : Prop where
  total : s.total < 0x10000000000000000
  accepted : s.accepted < 0x10000000000000000
  dismissed : s.dismissed < 0x10000000000000000
  modified : s.modified < 0x10000000000000000
  acceptanceRate : s.acceptanceRate.isFinite

theorem Json.nat64?_ofNat {n : Nat} (h : n < 0x10000000000000000) :
    nat64? (ofNat n).sorted = some n :=
  natBelow?_ofNat h

theorem Json.float?_ofFloat {f : Float} (h : f.isFinite) : float? (ofFloat f).sorted = some f := by
  simp only [ofFloat, h, if_true, sorted, float?]

/-- The fields that are written of statistics. -/
def Stats.fields (s : Stats) : List (String × Json) :=
  [("total", .ofNat s.total), ("accepted", .ofNat s.accepted),
    ("dismissed", .ofNat s.dismissed), ("modified", .ofNat s.modified),
    ("acceptance_rate", .ofFloat s.acceptanceRate)]

theorem Stats.nodup_fields (s : Stats) : (s.fields.map Prod.fst).Nodup := by simp [fields]

theorem Stats.ofJson?_toJson {s : Stats} (h : s.Fits) : Stats.ofJson? s.toJson.sorted = some s := by
  have hfield := field?_sorted s.nodup_fields
  have htoJson : s.toJson.sorted = .obj (sortFields (sortedFields s.fields)) := rfl
  have htotal := nat64?_ofNat h.total
  have haccepted := nat64?_ofNat h.accepted
  have hdismissed := nat64?_ofNat h.dismissed
  have hmodified := nat64?_ofNat h.modified
  have hrate := float?_ofFloat h.acceptanceRate
  rw [htoJson]
  simp -implicitDefEqProofs only [ofJson?, record?, Option.bind_eq_bind, Option.bind_some,
    Record.required, Record.value?, hfield]
  simp -implicitDefEqProofs [fields, field?_cons, htotal, haccepted, hdismissed, hmodified, hrate]

theorem Stats.gives_ofJson? : Gives Stats.ofJson? Stats.Fits := by
  intro j s hj h
  simp only [ofJson?, Option.bind_eq_bind, Option.bind_eq_some_iff] at h
  obtain ⟨r, hr, _, htotal, _, haccepted, _, hdismissed, _, hmodified, _, hrate, h⟩ := h
  cases h
  have hr := Record.bounded_of_record? hj hr
  exact ⟨(gives_natBelow _).of_required hr htotal, (gives_natBelow _).of_required hr haccepted,
    (gives_natBelow _).of_required hr hdismissed, (gives_natBelow _).of_required hr hmodified,
    gives_float.of_required hr hrate⟩

end CodeCoach
