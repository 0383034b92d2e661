import CodeCoach.Decimal.Places
import CodeCoach.Json.Printer
import CodeCoach.Wire.Coach

/-!
# Reports

The texts that are printed for people, and their JSON forms.  Every line ends with a line feed.

* `Report.intervention`, `Report.interventions`;
* `Report.stats`, `Report.patterns`, `Report.personalities`.
-/

namespace CodeCoach.Report

/-- A line of text. -/
def line (s : String) : String := s ++ "\n"

/-- Lines one after the other. -/
def joined (parts : List String) : String := String.join parts

/-- A text with blanks after it, up to a width in characters. -/
def padRight (width : Nat) (s : String) : String :=
  s ++ String.ofList (List.replicate (width - s.length) ' ')

/-- A text with blanks before it, up to a width in characters. -/
def padLeft (width : Nat) (s : String) : String :=
  String.ofList (List.replicate (width - s.length) ' ') ++ s

def nat (n : Nat) : String := String.ofList (Decimal.natChars n)

/-! ### Interventions -/

/-- The place of an issue: its path and line, and its column where it has one. -/
def place (c : Context) : String :=
  match c.column with
  | some column => c.path ++ ":" ++ nat c.line ++ ":" ++ nat column
  | none => c.path ++ ":" ++ nat c.line

/-- An intervention; the example has a line of its own where there is one to show. -/
def intervention (i : Intervention) : String :=
  let c := i.context
  let r := i.response
  joined [
    line ("[" ++ c.severity.name ++ "] " ++ c.kind.name ++ " " ++ place c ++ "  (" ++ i.id ++ ")"),
    line ("  [" ++ r.icon ++ "] " ++ r.message),
    match r.showExample, r.sample with
    | true, some sample => line ("  example: " ++ sample)
    | _, _ => ""]

def interventions (list : List Intervention) : String := joined (list.map intervention)

def interventionsJson (list : List Intervention) : String :=
  line (Json.arr (list.map Intervention.toJson)).pretty

/-! ### Feedback -/

def stats (s : Stats) : String :=
  joined [
    line ("Feedback: " ++ nat s.total ++ " total"),
    line ("  accepted   " ++ nat s.accepted),
    line ("  dismissed  " ++ nat s.dismissed),
    line ("  modified   " ++ nat s.modified),
    line ("  acceptance " ++ Decimal.renderPlaces 0 (s.acceptanceRate * 100.0) ++ "%")]

def statsJson (s : Stats) : String := line s.toJson.pretty

/-- What the rules say about a pattern; suppression counts before preference. -/
def marker (r : Rules) (key : String) : String :=
  if r.suppressed.contains key then "suppressed"
  else if r.preferred.contains key then "preferred"
  else ""

def pattern (r : Rules) (p : LearnedPattern) : String :=
  line (padLeft 4 (nat p.occurrences) ++ "x  " ++ padRight 10 p.reaction.name ++ " " ++
    padRight 11 (marker r p.patternKey) ++ " " ++ p.patternKey)

/-- The sensitivities to kinds with feedback, after an empty line. -/
def sensitivities (p : PerKind (Option Float)) : String :=
  let lines := Kind.all.filterMap fun kind =>
    (p.get kind).map fun x =>
      line ("sensitivity " ++ padRight 14 kind.name ++ " " ++ Decimal.renderPlaces 2 x)
  if lines.isEmpty then "" else line "" ++ joined lines

def patterns (l : Learning) : String :=
  joined [
    if l.patterns.isEmpty then line "No feedback recorded yet." else "",
    joined (l.patterns.map (pattern l.rules)),
    sensitivities l.rules.sensitivity]

def patternsJson (l : Learning) : String :=
  let value := Json.obj [("patterns", .arr (l.patterns.map LearnedPattern.toJson)),
    ("rules", l.rules.toJson)]
  line value.sorted.pretty

/-! ### Personalities -/

def personality (p : Personality) : String :=
  line (padRight 20 p.id ++ " " ++ padRight 24 p.title ++ " " ++ p.description)

def personalities : String := joined (Personality.all.map personality)

end CodeCoach.Report
