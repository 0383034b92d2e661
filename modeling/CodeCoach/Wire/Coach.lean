import CodeCoach.Intervention
import CodeCoach.Settings
import CodeCoach.Wire.Feedback
import CodeCoach.Wire.Issue

/-!
# Settings, interventions and events as JSON

Each type has a `toJson` and an `ofJson?` that reads back what it writes.  Within an event, a variant
may also be written as an object whose one field is an empty object.
-/

namespace CodeCoach

open Json

def Frequency.toJson (f : Frequency) : Json := .str f.name

def Frequency.ofJson? : Json → Option Frequency := variant? Frequency.ofName?

def Personality.toJson (p : Personality) : Json := .str p.id

def Personality.ofJson? : Json → Option Personality := variant? Personality.ofExactId?

def Settings.toJson (s : Settings) : Json :=
  .obj [("proactive_analysis_enabled", .bool s.proactive),
    ("intervention_frequency", s.frequency.toJson),
    ("max_suggestions_per_cycle", .ofNat s.maxSuggestions),
    ("active_personality", .str s.personality), ("use_ai_enhancement", .bool s.enhance),
    ("cooldown_seconds", .ofNat s.cooldownSeconds), ("debounce_ms", .ofNat s.debounceMillis)]

def Settings.ofJson? (j : Json) : Option Settings := do
  let r ← j.record? 7
  let d := Settings.default
  let proactive ← r.defaulted 0 "proactive_analysis_enabled" d.proactive bool?
  let frequency ← r.defaulted 1 "intervention_frequency" d.frequency Frequency.ofJson?
  let maxSuggestions ← r.defaulted 2 "max_suggestions_per_cycle" d.maxSuggestions nat64?
  let personality ← r.defaulted 3 "active_personality" d.personality str?
  let enhance ← r.defaulted 4 "use_ai_enhancement" d.enhance bool?
  let cooldownSeconds ← r.defaulted 5 "cooldown_seconds" d.cooldownSeconds nat64?
  let debounceMillis ← r.defaulted 6 "debounce_ms" d.debounceMillis nat64?
  pure {
    proactive, frequency, maxSuggestions, personality, enhance, cooldownSeconds, debounceMillis }

def Response.toJson (r : Response) : Json :=
  .obj [("message", .str r.message), ("icon", .str r.icon), ("tone", .str r.tone.name),
    ("show_example", .bool r.showExample), ("example", .ofOption .str r.sample)]

/-- Reads a response, in which variants may be `loose`. -/
def Response.read? (loose : Bool) (j : Json) : Option Response := do
  let r ← j.record? 5
  let message ← r.required 0 "message" str?
  let icon ← r.required 1 "icon" str?
  let tone ← r.required 2 "tone" (variantIn? loose Tone.ofName?)
  let showExample ← r.required 3 "show_example" bool?
  let sample ← r.optional 4 "example" str?
  pure { message, icon, tone, showExample, sample }

def Response.ofJson? (j : Json) : Option Response := Response.read? false j

def Intervention.toJson (i : Intervention) : Json :=
  .obj ([("id", .str i.id), ("issue_context", i.context.toJson), ("response", i.response.toJson),
      ("created_at", i.createdAt.toJson)] ++
    givenField "dismissed" .bool i.dismissed ++ givenField "accepted" .bool i.accepted)

/-- Reads an intervention, in which variants may be `loose`. -/
def Intervention.read? (loose : Bool) (j : Json) : Option Intervention := do
  let r ← j.record? 6
  let id ← r.required 0 "id" str?
  let context ← r.required 1 "issue_context" (Context.read? loose)
  let response ← r.required 2 "response" (Response.read? loose)
  let createdAt ← r.required 3 "created_at" Instant.ofJson?
  let dismissed ← r.defaulted 4 "dismissed" none (Record.nullable bool?)
  let accepted ← r.defaulted 5 "accepted" none (Record.nullable bool?)
  pure { id, context, response, createdAt, dismissed, accepted }

def Intervention.ofJson? (j : Json) : Option Intervention := Intervention.read? false j

/-! ### Events -/

/-- The fields of an event after the one that names its sort. -/
def Event.fields : Event → List (String × Json)
  | created i => [("intervention", i.toJson)]
  | resolved id action => [("id", .str id), ("action", action.toJson)]
  | warning message => [("message", .str message)]

def Event.toJson (e : Event) : Json := .obj (("type", .str e.name) :: e.fields)

/-- An event of the sort `name`, from the fields that follow the name. -/
def Event.ofFields? (name : String) (j : Json) : Option Event :=
  if name == "intervention_created" then do
    let r ← j.record? 1
    let i ← r.required 0 "intervention" (Intervention.read? true)
    pure (created i)
  else if name == "intervention_resolved" then do
    let r ← j.record? 2
    let id ← r.required 0 "id" str?
    let action ← r.required 1 "action" (variantIn? true Action.ofName?)
    pure (resolved id action)
  else if name == "warning" then do
    let r ← j.record? 1
    let message ← r.required 0 "message" str?
    pure (warning message)
  else none

/-- An event is read from an object with a field that names its sort, or from an array that begins
with the name. -/
def Event.ofJson? : Json → Option Event
  | .obj fields =>
    match field? "type" fields with
    | some (.str name) => ofFields? name (.obj fields)
    | _ => none
  | .arr (.str name :: rest) => ofFields? name (.arr rest)
  | _ => none

end CodeCoach
