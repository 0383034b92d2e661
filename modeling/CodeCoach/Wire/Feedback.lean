import CodeCoach.Instant.Text
import CodeCoach.Json.Record
import CodeCoach.Learning

/-!
# Feedback and learning as JSON

Each type has a `toJson` and an `ofJson?` that reads back what it writes.
-/

namespace CodeCoach

open Json

def Instant.toJson (t : Instant) : Json := .str t.render

def Instant.ofJson? : Json → Option Instant
  | .str s => Instant.parse? s
  | _ => none

def Action.toJson (a : Action) : Json := .str a.name

def Action.ofJson? : Json → Option Action := variant? Action.ofName?

def Reaction.toJson (r : Reaction) : Json := .str r.name

def Reaction.ofJson? : Json → Option Reaction := variant? Reaction.ofName?

/-- A field that is left out where there is nothing to say. -/
def Json.givenField (name : String) (f : α → Json) (a : Option α) : List (String × Json) :=
  match a with
  | none => []
  | some a => [(name, f a)]

def Feedback.toJson (f : Feedback) : Json :=
  .obj ([("intervention_id", .str f.interventionId), ("action", f.action.toJson)] ++
    givenField "feedback" .str f.note ++
    [("timestamp", f.time.toJson), ("issue_kind", .str f.kind.name),
      ("pattern_key", .str f.patternKey)])

def Feedback.ofJson? (j : Json) : Option Feedback := do
  let r ← j.record? 6
  let interventionId ← r.required 0 "intervention_id" str?
  let action ← r.required 1 "action" Action.ofJson?
  let note ← r.defaulted 2 "feedback" none (Record.nullable str?)
  let time ← r.required 3 "timestamp" Instant.ofJson?
  let kind ← r.required 4 "issue_kind" (variant? Kind.ofName?)
  let patternKey ← r.required 5 "pattern_key" str?
  pure { interventionId, action, note, time, kind, patternKey }

def LearnedPattern.toJson (p : LearnedPattern) : Json :=
  .obj [("pattern_key", .str p.patternKey), ("issue_kind", .str p.kind.name),
    ("reaction", p.reaction.toJson), ("occurrence_count", .ofNat p.occurrences),
    ("last_updated", p.lastUpdated.toJson)]

def LearnedPattern.ofJson? (j : Json) : Option LearnedPattern := do
  let r ← j.record? 5
  let patternKey ← r.required 0 "pattern_key" str?
  let kind ← r.required 1 "issue_kind" (variant? Kind.ofName?)
  let reaction ← r.required 2 "reaction" Reaction.ofJson?
  let occurrences ← r.required 3 "occurrence_count" nat32?
  let lastUpdated ← r.required 4 "last_updated" Instant.ofJson?
  pure { patternKey, kind, reaction, occurrences, lastUpdated }

/-! ### Rules -/

def NameSet.toJson (s : NameSet) : Json := .arr (s.names.map .str)

def NameSet.ofJson? (j : Json) : Option NameSet := (list? str? j).map NameSet.ofList

/-- The fields of the kinds that have a number. -/
def Sensitivity.fields (p : PerKind (Option Float)) : List (String × Json) :=
  Kind.all.flatMap fun kind => givenField kind.name .ofFloat (p.get kind)

/-- One more field of a number for a kind. -/
def Sensitivity.readField (p : PerKind (Option Float)) (field : String × Json) :
    Option (PerKind (Option Float)) := do
  let kind ← Kind.ofName? field.1
  let x ← float? field.2
  pure (p.set kind (some x))

def Sensitivity.ofJson? : Json → Option (PerKind (Option Float))
  | .obj fields => fields.foldlM readField (.const none)
  | _ => none

def Rules.toJson (r : Rules) : Json :=
  .obj [("suppressed_patterns", r.suppressed.toJson), ("preferred_patterns", r.preferred.toJson),
    ("sensitivity_by_kind", .obj (Sensitivity.fields r.sensitivity))]

def Rules.ofJson? (j : Json) : Option Rules := do
  let r ← j.record? 3
  let suppressed ← r.defaulted 0 "suppressed_patterns" .empty NameSet.ofJson?
  let preferred ← r.defaulted 1 "preferred_patterns" .empty NameSet.ofJson?
  let sensitivity ← r.defaulted 2 "sensitivity_by_kind" (.const none) Sensitivity.ofJson?
  pure { suppressed, preferred, sensitivity }

def Stats.toJson (s : Stats) : Json :=
  .obj [("total", .ofNat s.total), ("accepted", .ofNat s.accepted),
    ("dismissed", .ofNat s.dismissed), ("modified", .ofNat s.modified),
    ("acceptance_rate", .ofFloat s.acceptanceRate)]

def Stats.ofJson? (j : Json) : Option Stats := do
  let r ← j.record? 5
  let total ← r.required 0 "total" nat64?
  let accepted ← r.required 1 "accepted" nat64?
  let dismissed ← r.required 2 "dismissed" nat64?
  let modified ← r.required 3 "modified" nat64?
  let acceptanceRate ← r.required 4 "acceptance_rate" float?
  pure { total, accepted, dismissed, modified, acceptanceRate }

end CodeCoach
