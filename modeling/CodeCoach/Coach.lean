import CodeCoach.Config
import CodeCoach.Report
import CodeCoach.Session
import CodeCoach.Workspace

/-!
# What a user can ask of the coach

* `Coach.build`, a session with the options of a configuration;
* `Command`, the commands of a running session, `Command.parse` and `Coach.run`;
* `Coach.analyze`, the review of one file.

What is asked is answered by a text, and by a failure if there was one.
-/

namespace CodeCoach

/-- Why a request fails. -/
inductive RequestError
  | unreadable (path : String) (cause : FileError)
  | unknownPersonality (id : String)
  | unknownCommand (name : String)
  | notCleared (cause : StorageError)
  /-- There is no directory to watch. -/
  | notWatched (path : String) (cause : FileError)
  deriving DecidableEq, Repr

namespace RequestError

/-- What kept a directory from being watched. -/
def watchCause : FileError → String
  | .notFound => "No path was found."
  | cause => cause.message

/-- What failed. -/
def headline : RequestError → String
  | unreadable path _ => "failed to read " ++ path
  | unknownPersonality id =>
    "unknown personality '" ++ id ++ "' (see \x60codebuddy personalities\x60)"
  | unknownCommand name => "unknown command '" ++ name ++ "' or missing argument"
  | notCleared _ => "failed to persist the cleared feedback store"
  | notWatched path _ => "failed to watch " ++ path

/-- Why, as far as that is another matter; each text is the cause of the one before. -/
def causes : RequestError → List String
  | unreadable _ cause => [cause.message]
  | notCleared cause => cause.message :: cause.causes
  | notWatched _ cause => [watchCause cause]
  | unknownPersonality _ => []
  | unknownCommand _ => []

/-- What failed and why, on one line. -/
def message (e : RequestError) : String := String.intercalate ": " (e.headline :: e.causes)

end RequestError

/-- A text that was printed, and how the request ended. -/
structure Reply where
  text : String
  result : Except RequestError Unit

namespace Reply

def ok (text : String) : Reply := ⟨text, .ok ()⟩

def failed (e : RequestError) : Reply := ⟨"", .error e⟩

end Reply

/-! ### Commands -/

/-- A command of a running session. -/
inductive Command
  | nothing
  | act (action : Action) (id : String) (note : Option String)
  | review (path : String)
  | active
  | stats
  deriving DecidableEq, Repr

namespace Command

/-- A text without the blanks around it, unless nothing else is in it. -/
def given? (cs : List Char) : Option String :=
  let trimmed := Text.trim cs
  if trimmed.isEmpty then none else some (String.ofList trimmed)

/-- The text up to the first blank, and the text after it if there is a blank. -/
def cut (cs : List Char) : List Char × Option (List Char) :=
  match cs.dropWhile fun c => !Text.isBlank c with
  | [] => (cs, none)
  | _ :: rest => (cs.takeWhile fun c => !Text.isBlank c, some rest)

/-- The parts of a line: its first word, what stands between its first two blanks, and what stands
after them. -/
def parts (line : String) : String × Option String × Option String :=
  let (name, rest) := cut (Text.trim line.toList)
  match rest with
  | none => (String.ofList name, none, none)
  | some rest =>
    let (arg, note) := cut rest
    (String.ofList name, given? arg, note.bind given?)

/-- The command of a line. An acceptance has no note. -/
def parse (line : String) : Except RequestError Command :=
  match parts line with
  | ("", _, _) => .ok .nothing
  | ("accept", some id, _) => .ok (.act .accepted id none)
  | ("dismiss", some id, note) => .ok (.act .dismissed id note)
  | ("modify", some id, note) => .ok (.act .modified id note)
  | ("review", some path, _) => .ok (.review path)
  | ("active", _, _) => .ok .active
  | ("stats", _, _) => .ok .stats
  | (name, _, _) => .error (.unknownCommand name)

end Command

namespace Coach

/-- A session with the options of a configuration. Feedback is kept in its folder, or only in
memory. -/
def build (disk : Disk) (config : Config) (ephemeral : Bool) (ids : Nat → String)
    (clock : Instant) : Session :=
  let medium : Medium := if ephemeral then .memory .empty .none else .folder config.feedbackDir
  .ofEngine (Engine.fresh config.coach (FeedbackStore.load ⟨disk, medium⟩) ids clock)
    (.unreachable config.enhancerBase) none

/-- The document of a file. -/
def document (s : Session) (path : String) (language : Option String) :
    Except RequestError Document :=
  match Workspace.load s.engine.store.storage.disk path language with
  | .ok d => .ok d
  | .error e => .error (.unreadable path e)

/-- What is printed for the outcome of a review. The interventions are told as events. -/
def outcomeText (path : String) : Option Outcome → String
  | none => ""
  | some (.delivered []) => Report.line ("No issues found in " ++ path)
  | some (.delivered _) => ""
  | some outcome => Report.line ("review skipped: " ++ outcome.name)

/-- The word for an action that was taken in. -/
def actText (action : Action) (id : String) (applied : Bool) : String :=
  if applied then Report.line (action.name ++ " " ++ id)
  else Report.line ("no open intervention with id " ++ id)

def activeText (list : List Intervention) : String :=
  if list.isEmpty then Report.line "No active interventions." else Report.interventions list

/-- Carries out a command. -/
def run (s : Session) : Command → Reply × Session
  | .nothing => (.ok "", s)
  | .act action id note =>
    let (applied, engine) := s.engine.act id action note
    (.ok (actText action id applied), { s with engine := engine })
  | .review path =>
    match document s path none with
    | .error e => (.failed e, s)
    | .ok d =>
      let (outcome, s) := s.review d
      (.ok (outcomeText path outcome), s)
  | .active => (.ok (activeText s.engine.active), s)
  | .stats => (.ok (Report.stats s.engine.store.learning.stats), s)

/-- Carries out the command of a line. -/
def runLine (s : Session) (line : String) : Reply × Session :=
  match Command.parse line with
  | .error e => (.failed e, s)
  | .ok c => run s c

/-- The settings with the personality of a request. -/
def withPersonality (s : Session) : Option String → Except RequestError Session
  | none => .ok s
  | some id =>
    if (Personality.ofId? id).isNone then .error (.unknownPersonality id)
    else
      .ok { s with
        engine := { s.engine with settings := { s.engine.settings with personality := id } } }

/-- The report on the interventions of a file. -/
def analysisText (path : String) (asJson : Bool) (list : List Intervention) : String :=
  if asJson then Report.interventionsJson list
  else if list.isEmpty then Report.line ("No issues found in " ++ path)
  else Report.interventions list

/-- Reviews a file on demand. -/
def analyze (s : Session) (path : String) (language personality : Option String) (asJson : Bool) :
    Reply × Session :=
  match withPersonality s personality with
  | .error e => (.failed e, s)
  | .ok s =>
    match document s path language with
    | .error e => (.failed e, s)
    | .ok d =>
      let (outcome, s) := s.review d
      (.ok (analysisText path asJson ((outcome.map Outcome.interventions).getD [])), s)

end Coach

end CodeCoach
