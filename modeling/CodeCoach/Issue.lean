/-!
# Issues

What a review finds in a document, and the key under which feedback on such findings is learned.

* `Document`, a text with its language tag and path;
* `Kind`, `Severity`, `Location`, `Issue`;
* `Context`, the part of an issue that travels with an intervention;
* `patternKey`, the kind of an issue and the first thirty characters of its snippet.
-/

namespace CodeCoach

/-- A text under review. The path also identifies it to the cooldown and the debounce. -/
structure Document where
  text : String
  languageTag : String
  path : String
  deriving DecidableEq, Repr

/-- What an issue is about. -/
inductive Kind
  | bug
  | security
  | performance
  | style
  | accessibility
  | codeSmell
  deriving DecidableEq, Repr

/-- How much an issue matters. -/
inductive Severity
  | info
  | warning
  | critical
  deriving DecidableEq, Repr

/-- Where an issue is; lines and columns count from one, columns in characters. They are kept in 32
bits, so these are the places of documents with fewer than 2^32 - 1 lines, and of lines with fewer
than 2^32 - 1 characters; beyond that a number would be cut to its lowest bits. -/
structure Location where
  path : String
  line : Nat
  column : Option Nat
  deriving DecidableEq, Repr

/-- One finding of one rule. -/
structure Issue where
  kind : Kind
  severity : Severity
  location : Location
  snippet : String
  message : String
  remedy : Option String
  deriving DecidableEq, Repr

/-- What an intervention keeps of its issue. -/
structure Context where
  path : String
  line : Nat
  column : Option Nat
  kind : Kind
  severity : Severity
  description : String
  suggestion : Option String
  snippet : String
  deriving DecidableEq, Repr

namespace Kind

/-- The kinds in their order. -/
def all : List Kind := [bug, security, performance, style, accessibility, codeSmell]

def name : Kind → String
  | bug => "bug"
  | security => "security"
  | performance => "performance"
  | style => "style"
  | accessibility => "accessibility"
  | codeSmell => "code-smell"

/-- The kind of a name. -/
def ofName? (s : String) : Option Kind := all.find? (·.name == s)

theorem mem_all (k : Kind) : k ∈ all := by cases k <;> decide

theorem ofName?_name (k : Kind) : ofName? k.name = some k := by cases k <;> rfl

theorem name_inj {j k : Kind} : j.name = k.name ↔ j = k := by
  constructor
  · intro h
    have := congrArg ofName? h
    simpa [ofName?_name] using this
  · exact congrArg name

end Kind

namespace Severity

def all : List Severity := [info, warning, critical]

def name : Severity → String
  | info => "info"
  | warning => "warning"
  | critical => "critical"

def ofName? (s : String) : Option Severity := all.find? (·.name == s)

/-- The position of a severity, from the mildest. -/
def rank : Severity → Nat
  | info => 0
  | warning => 1
  | critical => 2

theorem ofName?_name (s : Severity) : ofName? s.name = some s := by cases s <;> rfl

theorem rank_inj {s t : Severity} : s.rank = t.rank ↔ s = t := by
  cases s <;> cases t <;> decide

end Severity

/-! ### Pattern keys -/

/-- The number of characters of a snippet that count for its pattern key. -/
def keyLength : Nat := 30

/-- The key of a kind and a snippet: the kind, a colon and the start of the snippet. -/
def patternKey (kind : Kind) (snippet : String) : String :=
  kind.name ++ ":" ++ String.ofList (snippet.toList.take keyLength)

def Issue.patternKey (i : Issue) : String := CodeCoach.patternKey i.kind i.snippet

def Context.patternKey (c : Context) : String := CodeCoach.patternKey c.kind c.snippet

/-- The context of an issue: its message becomes the description, its remedy the suggestion. -/
def Issue.context (i : Issue) : Context where
  path := i.location.path
  line := i.location.line
  column := i.location.column
  kind := i.kind
  severity := i.severity
  description := i.message
  suggestion := i.remedy
  snippet := i.snippet

@[simp] theorem Issue.context_patternKey (i : Issue) : i.context.patternKey = i.patternKey := rfl

end CodeCoach
