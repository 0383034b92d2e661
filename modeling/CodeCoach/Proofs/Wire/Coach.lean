import CodeCoach.Proofs.Wire.Issue
import CodeCoach.Proofs.Wire.Learning
import CodeCoach.Wire.Coach

/-!
# Settings, interventions and events are read back

Each writer is inverted by its reader, also after the fields were put in order, and what a reader
gives can be written.

* `Settings.ofJson?_toJson`, `Settings.gives_ofJson?`: the numbers of settings have 64 bits;
* `Intervention.read?_toJson`, `Intervention.gives_read?`: the place of an intervention has 32 bits,
  and its time is proper;
* `Event.ofJson?_toJson`, `Event.gives_ofJson?`.
-/

namespace CodeCoach

open Json

theorem Frequency.ofJson?_toJson (f : Frequency) : Frequency.ofJson? f.toJson.sorted = some f :=
  Frequency.ofName?_name f

theorem Personality.ofJson?_toJson (p : Personality) :
    Personality.ofJson? p.toJson.sorted = some p :=
  Personality.ofExactId?_id p

/-! ### Settings -/

/-- The numbers have 64 bits. -/
structure Settings.Fits (s : Settings) : Prop where
  maxSuggestions : s.maxSuggestions < 0x10000000000000000
  cooldownSeconds : s.cooldownSeconds < 0x10000000000000000
  debounceMillis : s.debounceMillis < 0x10000000000000000

/-- The fields that are written of settings. -/
def Settings.fields (s : Settings) : List (String × Json) :=
  [("proactive_analysis_enabled", .bool s.proactive),
    ("intervention_frequency", s.frequency.toJson),
    ("max_suggestions_per_cycle", .ofNat s.maxSuggestions),
    ("active_personality", .str s.personality), ("use_ai_enhancement", .bool s.enhance),
    ("cooldown_seconds", .ofNat s.cooldownSeconds), ("debounce_ms", .ofNat s.debounceMillis)]

theorem Settings.nodup_fields (s : Settings) : (s.fields.map Prod.fst).Nodup := by simp [fields]

theorem Settings.ofJson?_toJson {s : Settings} (h : s.Fits) :
    Settings.ofJson? s.toJson.sorted = some s := by
  have hfield := field?_sorted s.nodup_fields
  have htoJson : s.toJson.sorted = .obj (sortFields (sortedFields s.fields)) := rfl
  have hfrequency := s.frequency.ofJson?_toJson
  have hmax := nat64?_ofNat h.maxSuggestions
  have hcooldown := nat64?_ofNat h.cooldownSeconds
  have hdebounce := nat64?_ofNat h.debounceMillis
  rw [htoJson]
  simp -implicitDefEqProofs only [ofJson?, record?, Option.bind_eq_bind, Option.bind_some,
    Record.defaulted, Record.value?, hfield]
  simp -implicitDefEqProofs [fields, field?_cons, sorted, str?, bool?, hfrequency, hmax, hcooldown,
    hdebounce]

theorem Settings.gives_ofJson? : Gives Settings.ofJson? Settings.Fits := by
  intro j s hj h
  simp only [ofJson?, Option.bind_eq_bind, Option.bind_eq_some_iff] at h
  obtain ⟨r, hr, _, -, _, -, _, hmax, _, -, _, -, _, hcooldown, _, hdebounce, h⟩ := h
  cases h
  have hr := Record.bounded_of_record? hj hr
  exact ⟨(gives_natBelow _).of_defaulted hr (by decide) hmax,
    (gives_natBelow _).of_defaulted hr (by decide) hcooldown,
    (gives_natBelow _).of_defaulted hr (by decide) hdebounce⟩

/-! ### Interventions -/

theorem Tone.variantIn?_name (loose : Bool) (t : Tone) :
    variantIn? loose Tone.ofName? (.str t.name) = some t :=
  Tone.ofName?_name t

/-- The fields that are written of a response. -/
def Response.fields (r : Response) : List (String × Json) :=
  [("message", .str r.message), ("icon", .str r.icon), ("tone", .str r.tone.name),
    ("show_example", .bool r.showExample), ("example", .ofOption .str r.sample)]

theorem Response.nodup_fields (r : Response) : (r.fields.map Prod.fst).Nodup := by simp [fields]

theorem Response.read?_toJson (loose : Bool) (r : Response) :
    Response.read? loose r.toJson.sorted = some r := by
  have hfield := field?_sorted r.nodup_fields
  have htoJson : r.toJson.sorted = .obj (sortFields (sortedFields r.fields)) := rfl
  have htone := r.tone.variantIn?_name loose
  have hsample := nullable_str r.sample
  rw [htoJson]
  simp only [read?, record?, Option.bind_eq_bind, Option.bind_some, Record.required,
    Record.optional, Record.value?, hfield]
  simp [fields, field?_cons, sorted, str?, bool?, htone, hsample]

/-- The line and the column have 32 bits, and the time is proper. -/
def Intervention.Fits (i : Intervention) : Prop := i.context.Fits ∧ i.createdAt.Proper

/-- The fields that are written of an intervention. -/
def Intervention.fields (i : Intervention) : List (String × Json) :=
  [("id", .str i.id), ("issue_context", i.context.toJson), ("response", i.response.toJson),
      ("created_at", i.createdAt.toJson)] ++
    givenField "dismissed" .bool i.dismissed ++ givenField "accepted" .bool i.accepted

theorem Intervention.nodup_fields (i : Intervention) : (i.fields.map Prod.fst).Nodup := by
  obtain ⟨id, context, response, createdAt, dismissed, accepted⟩ := i
  cases dismissed <;> cases accepted <;> simp [fields, givenField]

theorem Intervention.read?_toJson (loose : Bool) {i : Intervention} (h : i.Fits) :
    Intervention.read? loose i.toJson.sorted = some i := by
  have hfield := field?_sorted i.nodup_fields
  have htoJson : i.toJson.sorted = .obj (sortFields (sortedFields i.fields)) := rfl
  have hcontext := Context.read?_toJson loose h.1
  have hresponse := i.response.read?_toJson loose
  have htime := Instant.ofJson?_toJson h.2
  rw [htoJson]
  simp -implicitDefEqProofs only [read?, record?, Option.bind_eq_bind, Option.bind_some,
    Record.required, Record.defaulted, Record.value?, hfield]
  obtain ⟨id, context, response, createdAt, dismissed, accepted⟩ := i
  cases dismissed <;> cases accepted <;>
    simp -implicitDefEqProofs [fields, givenField, field?_cons, sorted, str?, bool?, hcontext,
      hresponse, htime, Record.nullable]

theorem Intervention.gives_read? (loose : Bool) :
    Gives (Intervention.read? loose) Intervention.Fits := by
  intro j i hj h
  simp only [read?, Option.bind_eq_bind, Option.bind_eq_some_iff] at h
  obtain ⟨r, hr, _, -, context, hcontext, _, -, time, htime, _, -, _, -, h⟩ := h
  cases h
  have hr := Record.bounded_of_record? hj hr
  exact ⟨(Context.gives_read? loose).of_required hr hcontext,
    Instant.gives_ofJson?.of_required hr htime⟩

/-! ### Events -/

/-- The intervention that is told of, if one is, fits. -/
def Event.Fits : Event → Prop
  | created i => i.Fits
  | resolved _ _ | warning _ => True

theorem Action.variantIn?_name (loose : Bool) (a : Action) :
    variantIn? loose Action.ofName? a.toJson.sorted = some a :=
  Action.ofName?_name a

theorem Event.nodup_fields (e : Event) :
    ((("type", Json.str e.name) :: e.fields).map Prod.fst).Nodup := by
  cases e <;> simp [fields]

theorem Event.ofJson?_toJson {e : Event} (h : e.Fits) : Event.ofJson? e.toJson.sorted = some e := by
  have hfield := field?_sorted e.nodup_fields
  have htoJson : e.toJson.sorted =
      .obj (sortFields (sortedFields (("type", Json.str e.name) :: e.fields))) := rfl
  rw [htoJson]
  simp -implicitDefEqProofs only [ofJson?, hfield, field?_cons, if_true, Option.map_some, sorted]
  generalize hsorted : sortFields (sortedFields (("type", Json.str e.name) :: e.fields)) = fs at hfield
  cases e with
  | created i =>
    have hi := Intervention.read?_toJson true h
    simp -implicitDefEqProofs [ofFields?, name, record?, Record.required, Record.value?, hfield,
      fields, field?_cons, hi]
  | resolved id action =>
    have haction := action.variantIn?_name true
    simp [ofFields?, name, record?, Record.required, Record.value?, hfield, fields, field?_cons,
      haction, sorted, str?]
  | warning message =>
    simp [ofFields?, name, record?, Record.required, Record.value?, hfield, fields, field?_cons,
      sorted, str?]

theorem Event.fits_of_ofFields? {name : String} {j : Json} {e : Event} (hj : j.Bounded)
    (h : ofFields? name j = some e) : e.Fits := by
  unfold ofFields? at h
  split at h
  · simp only [Option.bind_eq_bind, Option.bind_eq_some_iff] at h
    obtain ⟨r, hr, i, hi, h⟩ := h
    cases h
    exact (Intervention.gives_read? true).of_required (Record.bounded_of_record? hj hr) hi
  · split at h
    · simp only [Option.bind_eq_bind, Option.bind_eq_some_iff] at h
      obtain ⟨_, -, _, -, _, -, h⟩ := h
      cases h
      trivial
    · split at h
      · simp only [Option.bind_eq_bind, Option.bind_eq_some_iff] at h
        obtain ⟨_, -, _, -, h⟩ := h
        cases h
        trivial
      · cases h

theorem Event.gives_ofJson? : Gives Event.ofJson? Event.Fits := by
  intro j e hj h
  unfold ofJson? at h
  split at h
  · split at h
    · exact fits_of_ofFields? hj h
    · cases h
  · cases hj with
    | arr hitems => exact fits_of_ofFields? (.arr fun v hv => hitems v (by simp [hv])) h
  · cases h

end CodeCoach
