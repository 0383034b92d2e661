import CodeCoach.Proofs.Instant.Text
import CodeCoach.Proofs.Json.Record
import CodeCoach.Proofs.Learning.Sensitivity
import CodeCoach.Wire.Feedback
import Mathlib.Data.List.Nodup

/-!
# Feedback, patterns and rules are read back

Each writer is inverted by its reader, also after the fields were put in order, and what is written
is legible.

* `Feedback.ofJson?_toJson`, `LearnedPattern.ofJson?_toJson`, where the times are proper and the
  occurrences fit 32 bits;
* `Rules.ofJson?_toJson`, where the sensitivities are finite;
* `Feedback.legible_toJson`, `LearnedPattern.legible_toJson`, `Rules.legible_toJson`, where the
  sensitivities are those that feedback leads to.
-/

namespace CodeCoach

open Json

/-! ### Leaves -/

theorem Instant.ofJson?_toJson {t : Instant} (h : t.Proper) :
    Instant.ofJson? t.toJson.sorted = some t :=
  Instant.parse?_render h

theorem Action.ofJson?_toJson (a : Action) : Action.ofJson? a.toJson.sorted = some a :=
  Action.ofName?_name a

theorem Reaction.ofJson?_toJson (r : Reaction) : Reaction.ofJson? r.toJson.sorted = some r :=
  Reaction.ofName?_name r

theorem Kind.variant?_name (k : Kind) : variant? Kind.ofName? (.str k.name) = some k :=
  Kind.ofName?_name k

theorem Json.natBelow?_ofNat {bound n : Nat} (h : n < bound) :
    natBelow? bound (ofNat n).sorted = some n := by
  have hbound : (decide (0 ≤ (n : Int)) && decide ((n : Int) < bound)) = true := by
    simp only [Bool.and_eq_true, decide_eq_true_eq]
    omega
  simp only [natBelow?, ofNat, sorted, hbound, if_true, Int.toNat_natCast]

theorem Json.nat32?_ofNat {n : Nat} (h : n < 0x100000000) :
    nat32? (ofNat n).sorted = some n :=
  natBelow?_ofNat h

theorem Json.legible_ofNat {levels n : Nat} (h : n ≤ maxWord) : Legible levels (ofNat n) :=
  Legible.int (by omega) (by omega)

/-! ### Feedback -/

/-- The fields that are written of a feedback. -/
def Feedback.fields (f : Feedback) : List (String × Json) :=
  [("intervention_id", .str f.interventionId), ("action", f.action.toJson)] ++
    givenField "feedback" .str f.note ++
    [("timestamp", f.time.toJson), ("issue_kind", .str f.kind.name),
      ("pattern_key", .str f.patternKey)]

theorem Feedback.nodup_fields (f : Feedback) : (f.fields.map Prod.fst).Nodup := by
  obtain ⟨interventionId, action, note, time, kind, patternKey⟩ := f
  cases note <;> simp [fields, givenField]

theorem Feedback.ofJson?_toJson {f : Feedback} (h : f.time.Proper) :
    Feedback.ofJson? f.toJson.sorted = some f := by
  have hfield := field?_sorted f.nodup_fields
  have htoJson : f.toJson.sorted = .obj (sortFields (sortedFields f.fields)) := rfl
  rw [htoJson]
  simp only [Feedback.ofJson?, record?, Option.bind_eq_bind, Option.bind_some, Record.required,
    Record.defaulted, Record.value?, hfield]
  obtain ⟨interventionId, action, note, time, kind, patternKey⟩ := f
  have haction := action.ofJson?_toJson
  have htime : Instant.ofJson? time.toJson.sorted = some time := Instant.ofJson?_toJson h
  have hkind := kind.variant?_name
  cases note <;>
    simp [fields, givenField, field?_cons, sorted, Record.nullable, str?, haction, htime, hkind]

theorem Feedback.legible_toJson (levels : Nat) (f : Feedback) :
    Legible (levels + 1) f.toJson := by
  refine Legible.obj fun g hg => ?_
  obtain ⟨interventionId, action, note, time, kind, patternKey⟩ := f
  cases note <;> simp [givenField] at hg <;> rcases hg with rfl | rfl | rfl | rfl | rfl | rfl <;>
    exact Legible.str _

/-! ### Patterns -/

/-- The fields that are written of a pattern. -/
def LearnedPattern.fields (p : LearnedPattern) : List (String × Json) :=
  [("pattern_key", .str p.patternKey), ("issue_kind", .str p.kind.name),
    ("reaction", p.reaction.toJson), ("occurrence_count", .ofNat p.occurrences),
    ("last_updated", p.lastUpdated.toJson)]

theorem LearnedPattern.nodup_fields (p : LearnedPattern) : (p.fields.map Prod.fst).Nodup := by
  simp [fields]

theorem LearnedPattern.ofJson?_toJson {p : LearnedPattern} (ht : p.lastUpdated.Proper)
    (hn : p.occurrences ≤ mostOccurrences) : LearnedPattern.ofJson? p.toJson.sorted = some p := by
  have hfield := field?_sorted p.nodup_fields
  have htoJson : p.toJson.sorted = .obj (sortFields (sortedFields p.fields)) := rfl
  rw [htoJson]
  simp only [LearnedPattern.ofJson?, record?, Option.bind_eq_bind, Option.bind_some,
    Record.required, Record.value?, hfield]
  have hreaction := p.reaction.ofJson?_toJson
  have htime := Instant.ofJson?_toJson ht
  have hkind := p.kind.variant?_name
  have hcount := nat32?_ofNat (Nat.lt_succ_of_le hn)
  -- Steps by computation alone would make the kernel count up to the bound of 32 bits.
  simp -implicitDefEqProofs [fields, field?_cons, sorted, str?, hreaction, htime, hkind, hcount]

theorem LearnedPattern.legible_toJson (levels : Nat) {p : LearnedPattern}
    (hn : p.occurrences ≤ mostOccurrences) : Legible (levels + 1) p.toJson := by
  refine Legible.obj fun g hg => ?_
  simp only [List.mem_cons, List.not_mem_nil, or_false] at hg
  rcases hg with rfl | rfl | rfl | rfl | rfl
  · exact Legible.str _
  · exact Legible.str _
  · exact Legible.str _
  · refine legible_ofNat ?_
    unfold mostOccurrences at hn
    unfold maxWord
    omega
  · exact Legible.str _

/-! ### Sets of names -/

theorem NameSet.ofJson?_toJson (s : NameSet) : NameSet.ofJson? s.toJson.sorted = some s := by
  have hnames : list? str? s.toJson.sorted = some s.names := list?_map fun name _ => rfl
  rw [NameSet.ofJson?, hnames, Option.map_some, NameSet.ofList_names]

theorem NameSet.legible_toJson (levels : Nat) (s : NameSet) : Legible (levels + 1) s.toJson :=
  legible_list fun name _ => Legible.str name

/-! ### Sensitivities -/

namespace Sensitivity

theorem field?_givenField (name other : String) (write : Float → Json) (a : Option Float)
    (fs : List (String × Json)) :
    field? other (givenField name write a ++ fs) =
      if name = other then (a.map write).or (field? other fs) else field? other fs := by
  cases a with
  | none => by_cases h : name = other <;> simp [givenField, h]
  | some a =>
    show field? other ((name, write a) :: fs) = _
    rw [field?_cons]
    rfl

/-- What is written for a kind among some kinds. -/
theorem field?_flatMap (p : PerKind (Option Float)) (kind : Kind) (kinds : List Kind) :
    field? kind.name (kinds.flatMap fun k => givenField k.name .ofFloat (p.get k)) =
      if kind ∈ kinds then (p.get kind).map .ofFloat else none := by
  induction kinds with
  | nil => rfl
  | cons k kinds ih =>
    rw [List.flatMap_cons, field?_givenField, ih]
    by_cases h : k = kind
    · subst h
      cases p.get k <;> simp
    · have hname : ¬ k.name = kind.name := fun e => h (Kind.name_inj.1 e)
      have hne : ¬ kind = k := fun e => h e.symm
      simp [hname, hne]

theorem field?_fields (p : PerKind (Option Float)) (kind : Kind) :
    field? kind.name (fields p) = (p.get kind).map .ofFloat := by
  rw [fields, field?_flatMap, if_pos (Kind.mem_all kind)]

theorem mem_fields {p : PerKind (Option Float)} {f : String × Json} (h : f ∈ fields p) :
    ∃ kind x, p.get kind = some x ∧ f = (kind.name, .ofFloat x) := by
  obtain ⟨kind, -, hf⟩ := List.mem_flatMap.1 h
  cases hx : p.get kind with
  | none => simp [givenField, hx] at hf
  | some x =>
    simp only [givenField, hx, List.mem_singleton] at hf
    exact ⟨kind, x, hx, hf⟩

theorem nodup_fields (p : PerKind (Option Float)) : ((fields p).map Prod.fst).Nodup := by
  have hnames (kinds : List Kind) :
      (kinds.flatMap fun k => givenField k.name .ofFloat (p.get k)).map Prod.fst =
        (kinds.filter fun k => (p.get k).isSome).map Kind.name := by
    induction kinds with
    | nil => rfl
    | cons k kinds ih =>
      rw [List.flatMap_cons, List.map_append, ih]
      cases hx : p.get k <;> simp [givenField, hx]
  rw [fields, hnames]
  refine List.Nodup.map (fun j k h => Kind.name_inj.1 h) (List.Nodup.filter _ (by decide))

/-- Reading fields of different kinds, in any order. -/
theorem foldlM_readField {fs : List (String × Json)}
    (h : ∀ f ∈ fs, ∃ (kind : Kind) (x : Float), f = (kind.name, .float x))
    (hnames : (fs.map Prod.fst).Nodup) (q : PerKind (Option Float)) :
    ∃ r, fs.foldlM readField q = some r ∧
      ∀ kind : Kind, r.get kind = ((field? kind.name fs).bind float?).or (q.get kind) := by
  induction fs generalizing q with
  | nil => exact ⟨q, rfl, fun kind => rfl⟩
  | cons f fs ih =>
    obtain ⟨kind, x, rfl⟩ := h f (by simp)
    obtain ⟨hfirst, hrest⟩ := List.nodup_cons.1 hnames
    have hread : readField q (kind.name, .float x) = some (q.set kind (some x)) := by
      simp [readField, Kind.ofName?_name, float?]
    obtain ⟨r, hr, hget⟩ := ih (fun g hg => h g (by simp [hg])) hrest (q.set kind (some x))
    refine ⟨r, ?_, fun other => ?_⟩
    · rw [List.foldlM_cons, hread]
      exact hr
    · rw [hget, PerKind.get_set, field?_cons]
      by_cases hkind : other = kind
      · -- No later field has this name, so what was read now stays.
        subst hkind
        have hnone : field? other.name fs = none := field?_eq_none.2 hfirst
        simp [hnone, float?]
      · have hname : ¬ kind.name = other.name := fun e => hkind (Kind.name_inj.1 e).symm
        simp [hkind, hname]

theorem ofJson?_fields {p : PerKind (Option Float)}
    (h : ∀ kind x, p.get kind = some x → x.isFinite) :
    ofJson? (Json.obj (fields p)).sorted = some p := by
  have hsorted (kind : Kind) : field? kind.name (sortFields (sortedFields (fields p))) =
      (p.get kind).map .float := by
    rw [field?_sorted (nodup_fields p), field?_fields]
    cases hx : p.get kind with
    | none => rfl
    | some x => simp [Json.ofFloat, h kind x hx, sorted]
  have hfloats : ∀ f ∈ sortFields (sortedFields (fields p)),
      ∃ (kind : Kind) (x : Float), f = (kind.name, .float x) := by
    intro f hf
    have hf := Sorted.mem_of_mem_ofList _ hf
    rw [sortedFields_eq_map] at hf
    obtain ⟨g, hg, rfl⟩ := List.mem_map.1 hf
    obtain ⟨kind, x, hx, rfl⟩ := mem_fields hg
    exact ⟨kind, x, by simp [Json.ofFloat, h kind x hx, sorted]⟩
  have hnames := (Sorted.increasing_ofList Prod.fst (sortedFields (fields p))).nodup
  obtain ⟨r, hr, hget⟩ := foldlM_readField hfloats hnames (.const none)
  -- The fields are read in the order of their names, not of kinds, so only the result is compared.
  have hsame : r = p := by
    refine PerKind.ext_get fun kind => ?_
    rw [hget, hsorted, PerKind.get_const]
    cases p.get kind <;> rfl
  rw [hsame] at hr
  exact hr

/-- The digits of some hundredths after the point, without a zero at their end. -/
def fractionDigits (h : Nat) : List Char :=
  if h % 10 = 0 then Decimal.natChars (h / 10 % 10) else Decimal.natChars (h % 100)

theorem floatChars_hundredths : ∀ h ∈ grid,
    floatChars (hundredths h) = Decimal.natChars (h / 100) ++ '.' :: fractionDigits h := by
  decide +kernel

theorem scale_hundredths : ∀ h ∈ grid,
    scale (Nat.ofDigitChars 10 (fractionDigits h) (h / 100)) (-(fractionDigits h).length) =
      some (hundredths h) := by
  decide +kernel

theorem isFinite_hundredths : ∀ h ∈ grid, (hundredths h).isFinite := by decide +kernel

theorem readsBack_hundredths {h : Nat} (hh : h ∈ grid) : ReadsBack (hundredths h) := by
  intro rest hrest
  have hdigits : ∀ c ∈ fractionDigits h, c.isDigit := by
    unfold fractionDigits
    split
    · exact isDigit_toDigits _
    · exact isDigit_toDigits _
  have hne : fractionDigits h ≠ [] := by
    unfold fractionDigits
    split
    · exact Nat.toDigits_ne_nil
    · exact Nat.toDigits_ne_nil
  have hfits : ∀ h ∈ grid, h / 100 ≤ maxWord ∧
      Nat.ofDigitChars 10 (fractionDigits h) (h / 100) ≤ maxWord := by decide +kernel
  obtain ⟨hwhole, hall⟩ := hfits h hh
  rw [floatChars_hundredths h hh, List.append_assoc, List.cons_append,
    number_decimal hwhole hdigits hne hall hrest, scale_hundredths h hh, Option.map_some]

end Sensitivity

/-! ### Rules -/

/-- The fields that are written of rules. -/
def Rules.fields (r : Rules) : List (String × Json) :=
  [("suppressed_patterns", r.suppressed.toJson), ("preferred_patterns", r.preferred.toJson),
    ("sensitivity_by_kind", .obj (Sensitivity.fields r.sensitivity))]

theorem Rules.nodup_fields (r : Rules) : (r.fields.map Prod.fst).Nodup := by simp [fields]

theorem Rules.ofJson?_toJson {r : Rules}
    (h : ∀ kind x, r.sensitivity.get kind = some x → x.isFinite) :
    Rules.ofJson? r.toJson.sorted = some r := by
  have hfield := field?_sorted r.nodup_fields
  have htoJson : r.toJson.sorted = .obj (sortFields (sortedFields r.fields)) := rfl
  rw [htoJson]
  simp only [Rules.ofJson?, record?, Option.bind_eq_bind, Option.bind_some, Record.defaulted,
    Record.value?, hfield]
  have hsuppressed := r.suppressed.ofJson?_toJson
  have hpreferred := r.preferred.ofJson?_toJson
  have hsensitivity := Sensitivity.ofJson?_fields h
  simp [fields, field?_cons, hsuppressed, hpreferred, hsensitivity]

theorem Rules.legible_toJson (levels : Nat) {r : Rules}
    (h : ∀ kind x, r.sensitivity.get kind = some x → ReadsBack x) :
    Legible (levels + 2) r.toJson := by
  refine Legible.obj fun g hg => ?_
  simp only [List.mem_cons, List.not_mem_nil, or_false] at hg
  rcases hg with rfl | rfl | rfl
  · exact r.suppressed.legible_toJson levels
  · exact r.preferred.legible_toJson levels
  · refine Legible.obj fun f hf => ?_
    obtain ⟨kind, x, hx, rfl⟩ := Sensitivity.mem_fields hf
    unfold Json.ofFloat
    split
    · exact Legible.float (h kind x hx)
    · exact Legible.null

end CodeCoach
