import CodeCoach.Coach
import CodeCoach.CommandLine.Invocation
import CodeCoach.LogFile

/-!
# The command line

* `CommandLine.run`, what a command line does to a disk, what it prints and how it ends;
* `Course`, either the end of a run or a session that goes on;
* `RequestError.report`, how a failure is reported.
-/

namespace CodeCoach

/-- The causes of a failure on lines of their own, with numbers if there is more than one. -/
def RequestError.causeLines : List String → List String
  | [] => []
  | [cause] => ["    " ++ cause]
  | causes => causes.mapIdx fun n cause => Report.padLeft 5 (Report.nat n) ++ ": " ++ cause

/-- The report of a failure. -/
def RequestError.report (e : RequestError) : String :=
  let causes :=
    if e.causes.isEmpty then [] else "" :: "Caused by:" :: causeLines e.causes
  Report.joined ((("Error: " ++ e.headline) :: causes).map Report.line)

namespace CommandLine

/-! ### Ends -/

/-- How a run ends. -/
structure Finish where
  output : String
  code : Nat
  failure : Option RequestError

namespace Finish

def ok (output : String) : Finish := ⟨output, 0, none⟩

def failed (e : RequestError) : Finish := ⟨"", 1, some e⟩

/-- The end of a run that cannot open its log. -/
def crashed : Finish := ⟨"", 101, none⟩

/-- The end of a run that answers a request. -/
def ofReply (r : Reply) : Finish :=
  match r.result with
  | .ok () => ok r.text
  | .error e => { failed e with output := r.text }

end Finish

/-- The name and the number of the version. -/
def versionText : String := Report.line "codebuddy 0.1.0"

/-- How to call the program. -/
def usage : String :=
  Report.line "Usage: codebuddy [OPTIONS] <COMMAND>" ++
    Report.line ("Commands: " ++ String.intercalate ", " (Verb.all.map Verb.name))

/-- How a run ends that is not carried out. -/
def Stop.finish : Stop → Finish
  | help => .ok usage
  | version => .ok versionText
  | misuse => ⟨"", 2, none⟩

/-- What comes of a run. -/
inductive Course
  /-- It ends, with the disk as it is then. -/
  | ended (finish : Finish) (disk : Disk)
  /-- A directory is watched, and the session goes on. -/
  | watching (directory : String) (session : Session)

/-! ### Subcommands -/

/-- Forgets all feedback. -/
def reset (s : Session) (quiet : Bool) : Finish × Disk :=
  let (result, store) := s.engine.store.reset
  match result with
  | .error e => (.failed (.notCleared e), store.storage.disk)
  | .ok () =>
    (.ok (if quiet then "" else
        Report.line "Feedback history, learned patterns and rules cleared."),
      store.storage.disk)

/-- The file that tells of a crash. -/
def crashPath (dataDir : String) : String := Path.join dataDir "crash.log"

/-- The disk without the report of a crash, if it has one that can be read. -/
def dropCrashReport (disk : Disk) (dataDir : String) : Disk :=
  match disk.readText (crashPath dataDir) with
  | .ok _ => disk.remove (crashPath dataDir)
  | .error _ => disk

/-- Why a path cannot be watched, if it cannot. -/
def watchFailure? (disk : Disk) (path : String) : Option FileError :=
  match disk.follow path with
  | .error e => some e
  | .ok (.absent _) => some .notFound
  | .ok (.present _ _) => none

/-- Begins to watch a directory. -/
def watch (disk : Disk) (config : Config) (directory : String) (session : Disk → Session) :
    Course :=
  let disk := dropCrashReport disk config.dataDir
  match watchFailure? disk directory with
  | some e => .ended (.failed (.notWatched directory e)) disk
  | none => .watching directory (session disk)

/-- The greeting of a watch. -/
def greeting (quiet : Bool) (directory : String) : String :=
  if quiet then "" else
    Report.line ("Watching " ++ directory ++
      " (commands: accept, dismiss, modify, review, active, stats)")

/-! ### Runs -/

namespace Invocation

/-- Carries out an invocation with the options of a configuration. -/
def carryOut (i : Invocation) (disk : Disk) (config : Config) (ids : Nat → String)
    (clock : Instant) : Course :=
  let session := fun disk => Coach.build disk config i.ephemeral ids clock
  let learning := (session disk).engine.store.learning
  match i.subcommand with
  | .personalities => .ended (.ok Report.personalities) disk
  | .stats asJson =>
    .ended (.ok (if asJson then Report.statsJson learning.stats else Report.stats learning.stats))
      disk
  | .patterns asJson =>
    .ended (.ok (if asJson then Report.patternsJson learning else Report.patterns learning)) disk
  | .analyze file language personality asJson =>
    let (reply, after) := Coach.analyze (session disk) file language personality asJson
    .ended (.ofReply reply) after.engine.store.storage.disk
  | .reset =>
    let (finish, disk) := reset (session disk) i.quiet
    .ended finish disk
  | .watch directory =>
    watch disk config (directory.getD ("/" ++ Disk.renderNames disk.workingDirectory)) session

/-- Prepares the log of a run, if it is to have a file, and says whether the run can go on. -/
def prepareLog (disk : Disk) (config : Config) (clock : Instant) : Bool × Disk :=
  match config.logFile with
  | none => (true, disk)
  | some path => LogFile.prepare disk path clock.date

/-- Carries out an invocation. -/
def run (i : Invocation) (disk : Disk) (env : Environment) (ids : Nat → String)
    (clock : Instant) : Course :=
  let config := Config.resolve disk env i.request
  match prepareLog disk config clock with
  | (false, disk) => .ended .crashed disk
  | (true, disk) => i.carryOut disk config ids clock

end Invocation

/-- Carries out a command line. -/
def run (disk : Disk) (env : Environment) (ids : Nat → String) (clock : Instant)
    (args : List String) : Course :=
  match Invocation.parse env args with
  | .error stop => .ended stop.finish disk
  | .ok i => i.run disk env ids clock

end CommandLine

end CodeCoach
