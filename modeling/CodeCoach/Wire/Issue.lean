import CodeCoach.Issue
import CodeCoach.Json.Record

/-!
# Documents and issues as JSON

Each type has a `toJson` and an `ofJson?` that reads back what it writes.
-/

namespace CodeCoach

open Json

def Document.toJson (d : Document) : Json :=
  .obj [("text", .str d.text), ("language_tag", .str d.languageTag), ("path", .str d.path)]

def Document.ofJson? (j : Json) : Option Document := do
  let r ← j.record? 3
  let text ← r.required 0 "text" str?
  let languageTag ← r.required 1 "language_tag" str?
  let path ← r.required 2 "path" str?
  pure { text, languageTag, path }

def Kind.toJson (k : Kind) : Json := .str k.name

def Kind.ofJson? : Json → Option Kind := variant? Kind.ofName?

def Severity.toJson (s : Severity) : Json := .str s.name

def Severity.ofJson? : Json → Option Severity := variant? Severity.ofName?

def Location.toJson (l : Location) : Json :=
  .obj [("path", .str l.path), ("line", .ofNat l.line), ("column", .ofOption .ofNat l.column)]

def Location.ofJson? (j : Json) : Option Location := do
  let r ← j.record? 3
  let path ← r.required 0 "path" str?
  let line ← r.required 1 "line" nat32?
  let column ← r.optional 2 "column" nat32?
  pure { path, line, column }

def Issue.toJson (i : Issue) : Json :=
  .obj [("kind", i.kind.toJson), ("severity", i.severity.toJson), ("location", i.location.toJson),
    ("snippet", .str i.snippet), ("message", .str i.message), ("remedy", .ofOption .str i.remedy)]

def Issue.ofJson? (j : Json) : Option Issue := do
  let r ← j.record? 6
  let kind ← r.required 0 "kind" Kind.ofJson?
  let severity ← r.required 1 "severity" Severity.ofJson?
  let location ← r.required 2 "location" Location.ofJson?
  let snippet ← r.required 3 "snippet" str?
  let message ← r.required 4 "message" str?
  let remedy ← r.optional 5 "remedy" str?
  pure { kind, severity, location, snippet, message, remedy }

def Context.toJson (c : Context) : Json :=
  .obj [("path", .str c.path), ("line", .ofNat c.line), ("column", .ofOption .ofNat c.column),
    ("kind", c.kind.toJson), ("severity", c.severity.toJson), ("description", .str c.description),
    ("suggestion", .ofOption .str c.suggestion), ("snippet", .str c.snippet)]

/-- Reads a context, in which variants may be `loose`. -/
def Context.read? (loose : Bool) (j : Json) : Option Context := do
  let r ← j.record? 8
  let path ← r.required 0 "path" str?
  let line ← r.required 1 "line" nat32?
  let column ← r.optional 2 "column" nat32?
  let kind ← r.required 3 "kind" (variantIn? loose Kind.ofName?)
  let severity ← r.required 4 "severity" (variantIn? loose Severity.ofName?)
  let description ← r.required 5 "description" str?
  let suggestion ← r.optional 6 "suggestion" str?
  let snippet ← r.required 7 "snippet" str?
  pure { path, line, column, kind, severity, description, suggestion, snippet }

def Context.ofJson? (j : Json) : Option Context := Context.read? false j

end CodeCoach
