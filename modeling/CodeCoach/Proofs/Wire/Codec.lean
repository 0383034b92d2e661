import CodeCoach.Proofs.Wire.Coach

/-!
# Everything that is written is read back

Thirteen types are written as JSON values and read from them.  For each of them reading inverts
writing, and so a value that was read and written once stays as it is.

* `Codec`, a writer with its reader, and `Codec.Lawful`, what the two owe each other;
* `Codec.normal?`, a JSON value read and written again;
* `Serialized`, the thirteen types, with `Serialized.codec` and `Serialized.lawful`;
* `Serialized.reads_back`.
-/

namespace CodeCoach

open Json

/-- How the values of a type are written and read. -/
structure Codec (α : Type) where
  toJson : α → Json
  ofJson? : Json → Option α
  /-- Whether the numbers of a value keep to the widths of their fields, its times are proper and its
  floats finite. -/
  Fits : α → Prop

namespace Codec

variable {α : Type}

/-- The JSON value of a value, with all fields in the order of their names. -/
def encode (c : Codec α) (a : α) : Json := (c.toJson a).sorted

/-- A JSON value after it was read and written. -/
def normal? (c : Codec α) (j : Json) : Option Json := (c.ofJson? j).map c.encode

/-- Reading inverts writing, and what is read can be written. -/
structure Lawful (c : Codec α) : Prop where
  ofJson?_encode : ∀ a, c.Fits a → c.ofJson? (c.encode a) = some a
  gives : Gives c.ofJson? c.Fits

theorem Lawful.normal?_normal? {c : Codec α} (h : c.Lawful) {j n : Json} (hj : j.Bounded)
    (hn : c.normal? j = some n) : c.normal? n = some n := by
  obtain ⟨a, ha, rfl⟩ := Option.map_eq_some_iff.1 hn
  rw [normal?, h.ofJson?_encode a (h.gives j a hj ha), Option.map_some]

end Codec

/-- The types whose values are written as JSON. -/
inductive Serialized
  | document
  | issue
  | context
  | response
  | intervention
  | feedback
  | learnedPattern
  | rules
  | stats
  | settings
  | personality
  | frequency
  | event
  deriving DecidableEq, Repr

namespace Serialized

/-- The values of a type. -/
def Value : Serialized → Type
  | document => Document
  | issue => Issue
  | context => Context
  | response => Response
  | intervention => Intervention
  | feedback => Feedback
  | learnedPattern => LearnedPattern
  | rules => Rules
  | stats => Stats
  | settings => Settings
  | personality => Personality
  | frequency => Frequency
  | event => Event

/-- How they are written and read. -/
def codec : (s : Serialized) → Codec s.Value
  | document => ⟨Document.toJson, Document.ofJson?, fun _ => True⟩
  | issue => ⟨Issue.toJson, Issue.ofJson?, Issue.Fits⟩
  | context => ⟨Context.toJson, Context.ofJson?, Context.Fits⟩
  | response => ⟨Response.toJson, Response.ofJson?, fun _ => True⟩
  | intervention => ⟨Intervention.toJson, Intervention.ofJson?, Intervention.Fits⟩
  | feedback => ⟨Feedback.toJson, Feedback.ofJson?, Feedback.Fits⟩
  | learnedPattern => ⟨LearnedPattern.toJson, LearnedPattern.ofJson?, LearnedPattern.Fits⟩
  | rules => ⟨Rules.toJson, Rules.ofJson?, Rules.Fits⟩
  | stats => ⟨Stats.toJson, Stats.ofJson?, Stats.Fits⟩
  | settings => ⟨Settings.toJson, Settings.ofJson?, Settings.Fits⟩
  | personality => ⟨Personality.toJson, Personality.ofJson?, fun _ => True⟩
  | frequency => ⟨Frequency.toJson, Frequency.ofJson?, fun _ => True⟩
  | event => ⟨Event.toJson, Event.ofJson?, Event.Fits⟩

theorem lawful (s : Serialized) : s.codec.Lawful := by
  cases s with
  | document => exact ⟨fun d _ => d.ofJson?_toJson, fun _ _ _ _ => trivial⟩
  | issue => exact ⟨fun _ => Issue.ofJson?_toJson, Issue.gives_ofJson?⟩
  | context => exact ⟨fun _ => Context.read?_toJson false, Context.gives_read? false⟩
  | response => exact ⟨fun r _ => r.read?_toJson false, fun _ _ _ _ => trivial⟩
  | intervention =>
    exact ⟨fun _ => Intervention.read?_toJson false, Intervention.gives_read? false⟩
  | feedback => exact ⟨fun _ => Feedback.ofJson?_toJson, Feedback.gives_ofJson?⟩
  | learnedPattern =>
    exact ⟨fun _ h => LearnedPattern.ofJson?_toJson h.1 h.2, LearnedPattern.gives_ofJson?⟩
  | rules => exact ⟨fun _ => Rules.ofJson?_toJson, Rules.gives_ofJson?⟩
  | stats => exact ⟨fun _ => Stats.ofJson?_toJson, Stats.gives_ofJson?⟩
  | settings => exact ⟨fun _ => Settings.ofJson?_toJson, Settings.gives_ofJson?⟩
  | personality => exact ⟨fun p _ => p.ofJson?_toJson, fun _ _ _ _ => trivial⟩
  | frequency => exact ⟨fun f _ => f.ofJson?_toJson, fun _ _ _ _ => trivial⟩
  | event => exact ⟨fun _ => Event.ofJson?_toJson, Event.gives_ofJson?⟩

/-- A value comes back from its JSON value, and what was read from any JSON value and written again
is read and written without a change. -/
theorem reads_back (s : Serialized) :
    (∀ a, s.codec.Fits a → s.codec.ofJson? (s.codec.encode a) = some a) ∧
      (∀ j a, j.Bounded → s.codec.ofJson? j = some a → s.codec.Fits a) ∧
      ∀ j n, j.Bounded → s.codec.normal? j = some n → s.codec.normal? n = some n :=
  ⟨s.lawful.ofJson?_encode, s.lawful.gives, fun _ _ => s.lawful.normal?_normal?⟩

/-- An event as it is written. -/
def markerEvent : Event :=
  .created {
    id := "7"
    context := ⟨"a.rs", 3, some 5, .codeSmell, .info, "TODO marker left in code", none, "// TODO"⟩
    response := ⟨"Shall we?", "?", .gentle, false, none⟩
    createdAt := ⟨86399, 1500000000⟩
    dismissed := none
    accepted := some true }

/-- An event as an array, with its variant in the form of an object. -/
def looseEvent : Json := .arr [.str "intervention_resolved", .str "7", .obj [("accepted", .obj [])]]

theorem reads_back_events :
    Event.ofJson? markerEvent.toJson.sorted = some markerEvent ∧
      event.codec.normal? looseEvent = some (Event.resolved "7" .accepted).toJson.sorted ∧
      event.codec.normal? (Event.resolved "7" .accepted).toJson.sorted =
        some (Event.resolved "7" .accepted).toJson.sorted := by
  obtain ⟨hread, -, hnormal⟩ := reads_back event
  have hfits : markerEvent.Fits := by
    refine ⟨⟨by decide, ?_⟩, by decide, .inr (by decide)⟩
    rintro n ⟨⟩
    decide
  have hbounded : looseEvent.Bounded := by
    refine .arr fun v hv => ?_
    simp only [List.mem_cons, List.not_mem_nil, or_false] at hv
    rcases hv with rfl | rfl | rfl
    · exact .str _
    · exact .str _
    · exact .obj fun f hf => by
        obtain rfl := List.mem_singleton.1 hf
        exact .obj (by simp)
  have hloose : event.codec.normal? looseEvent =
      some (Event.resolved "7" .accepted).toJson.sorted := rfl
  exact ⟨hread markerEvent hfits, hloose, hnormal looseEvent _ hbounded hloose⟩

end Serialized

end CodeCoach
