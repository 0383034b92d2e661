import CodeCoach.CommandLine
import CodeCoach.Identifier
import Std.Time.DateTime.Timestamp

/-!
# The program

The files that a run may look at are put on a disk, the run is carried out on it, and what has
changed on it is written back.

* `Program.look`, `Program.save`, between the disk and the files of the system;
* `Program.attend`, a watch, which looks for changed files and reads commands;
* `main`.
-/

namespace CodeCoach.Program

/-! ### The system -/

/-- The variables that have a meaning. -/
def variableNames : List String :=
  ["CODEBUDDY_DATA_DIR", "CODEBUDDY_LOG", "CODEBUDDY_LOG_FILE", "CODEBUDDY_LOG_FORMAT",
    "CODEBUDDY_PERSONALITY", "CODEBUDDY_AI_URL", "CODEBUDDY_AI_TOKEN", "XDG_DATA_HOME", "HOME"]

def environment : IO Environment :=
  variableNames.foldlM (fun env name => do
    match ← IO.getEnv name with
    | some value => pure (env.set name value)
    | none => pure env) .empty

def now : IO Instant := do
  let nanos := (← Std.Time.Timestamp.now).toNanosecondsSinceUnixEpoch.toInt
  pure ⟨nanos.fdiv nanosPerSecond, (nanos.fmod nanosPerSecond).toNat⟩

/-- The working directory. -/
def here : IO Address := do
  pure ((Path.pieces (← IO.currentDir).toString.toList).filter (· != []))

/-- The number with the given digits to the base 256. -/
def numberOf (bytes : ByteArray) : Nat := bytes.toList.foldl (fun n b => n * 256 + b.toNat) 0

/-- Identifiers, random from the first one on. -/
def identifiers : IO (Nat → String) := do
  let start := numberOf (← IO.getRandomBytes 16)
  let step := numberOf (← IO.getRandomBytes 16)
  pure fun n => Identifier.ofNumber (start + n * (2 * step + 1))

/-- Prints a text at once. -/
def say (text : String) : IO Unit := do
  let output ← IO.getStdout
  output.putStr text
  output.flush

/-! ### Files -/

/-- Puts on the disk what one path leads to. -/
def lookOnce (disk : Disk) (path : String) : IO Disk := do
  try
    if ← (← IO.FS.realPath path).isDir then pure (disk.makeDirectories path).2
    else
      let content := Content.ofBytes (← IO.FS.readBinFile path).toList
      pure ((disk.write path content).toOption.getD disk)
  catch _ => pure disk

/-- Puts on the disk what a path leads to, with the directories on the way. -/
def look (disk : Disk) (path : String) : IO Disk := do
  let way := (Disk.parents (Path.components path)).reverse.map String.ofList
  ((way.filter fun p => !p.isEmpty) ++ [path]).foldlM lookOnce (disk.remove path)

/-- The file of the system at an address. -/
def systemPath (address : Address) : String := "/" ++ Disk.renderNames address

/-- Writes a file by way of another, so that it is never half written. -/
def saveFile (address : Address) (content : Content) : IO Unit := do
  let path := systemPath address
  IO.FS.createDirAll (systemPath address.dropLast)
  IO.FS.writeBinFile (path ++ ".new") ⟨content.toBytes.toArray⟩
  IO.FS.rename (path ++ ".new") path

/-- Writes back what has changed. -/
def save (before after : Disk) : IO Unit := do
  for (address, node) in after.nodes.entries do
    if before.node? address != some node then
      match node with
      | .directory => IO.FS.createDirAll (systemPath address)
      | .file content => saveFile address content
  for (address, _) in before.nodes.entries do
    if (after.node? address).isNone then IO.FS.removeFile (systemPath address)

/-- The paths that a run may look at. -/
def pathsOf (env : Environment) (i : CommandLine.Invocation) : List String :=
  let dataDir := Config.chosenDataDir env i.request
  let feedback := [FeedbackStore.historyKey, FeedbackStore.patternsKey, FeedbackStore.rulesKey].map
    (Folder.filePath (Path.join dataDir "feedback"))
  let subject := match i.subcommand with
    | .analyze file _ _ _ => [file]
    | .watch (some directory) => [directory]
    | _ => []
  [Path.join dataDir "config.toml", CommandLine.crashPath dataDir] ++ feedback ++ subject

/-! ### Watching -/

/-- A path and the time of its last change. -/
abbrev Stamp := String × Int × UInt32

/-- A session together with what the system has been told of it. -/
structure Watch where
  directory : String
  session : Session
  /-- The number of events that were printed. -/
  told : Nat
  /-- The files of the directory as they were last seen. -/
  stamps : List Stamp
  /-- The time in milliseconds when the timers were last moved on. -/
  time : Nat

/-- The files below a directory that are not ignored. -/
partial def stampsBelow (root directory : String) : IO (List Stamp) := do
  let mut stamps := []
  for entry in ← (← IO.FS.realPath directory).readDir do
    let path := Path.join directory entry.fileName
    if !Workspace.isIgnored root path then
      let info ← entry.path.metadata
      if info.type == .dir then stamps := (← stampsBelow root path) ++ stamps
      else stamps := (path, info.modified.sec, info.modified.nsec) :: stamps
  pure stamps

/-- The stamps of a directory, or the given ones where it cannot be read. -/
def stampsOr (directory : String) (known : List Stamp) : IO (List Stamp) := do
  try stampsBelow directory directory catch _ => pure known

def diskOf (s : Session) : Disk := s.engine.store.storage.disk

/-- Brings what the session knows of a path up to date. -/
def refresh (s : Session) (path : String) : IO Session := do
  let disk ← look (diskOf s) path
  let storage := { s.engine.store.storage with disk := disk }
  let store := { s.engine.store with storage := storage }
  pure { s with engine := { s.engine with store := store, clock := ← now } }

/-- Prints the events that were not printed yet. -/
def tell (w : Watch) : IO Watch := do
  for event in w.session.engine.eventsSince w.told do
    match event with
    | .created i => say (Report.intervention i)
    | .warning message => IO.eprintln ("warning: " ++ message)
    | .resolved _ _ => pure ()
  pure { w with told := w.session.engine.events.length }

/-- Lets a file that was written wait for its cycle. -/
def noteWrite (s : Session) (path : String) : IO Session := do
  let s ← refresh s path
  match Coach.document s path none with
  | .ok d => pure { s with engine := s.engine.schedule d .save }
  | .error _ => pure s

/-- Looks for changed files and lets time pass. -/
def tick (w : Watch) : IO Watch := do
  let stamps ← stampsOr w.directory w.stamps
  let changed := stamps.filter fun stamp => !w.stamps.contains stamp
  let session ← changed.foldlM (fun s stamp => noteWrite s stamp.1) w.session
  let time ← IO.monoMsNow
  tell { w with session := session.sleep (time - w.time), stamps, time }

/-- Carries out the command of a line. -/
def obey (w : Watch) (line : String) : IO Watch := do
  let s ← match Command.parse line with
    | .ok (.review path) => refresh w.session path
    | _ => pure { w.session with engine := { w.session.engine with clock := ← now } }
  let (reply, after) := Coach.runLine s line
  save (diskOf s) (diskOf after)
  say reply.text
  match reply.result with
  | .ok () => pure ()
  | .error e => IO.eprintln ("error: " ++ e.message)
  tell { w with session := after }

/-- The next line of the input, which is read in the background. -/
def nextLine : IO (Task (Except IO.Error String)) := do
  let input ← IO.getStdin
  IO.asTask input.getLine

/-- Watches until the program is stopped from outside; `line` is the line being read, unless the
input has ended. -/
partial def attend (w : Watch) (line : Option (Task (Except IO.Error String))) : IO Unit := do
  let w ← tick w
  match line with
  | none =>
    IO.sleep 100
    attend w none
  | some task =>
    if ← IO.hasFinished task then
      match task.get with
      | .ok "" => attend w none
      | .ok text => attend (← obey w text) (some (← nextLine))
      | .error _ => attend w none
    else
      IO.sleep 100
      attend w line

/-! ### Runs -/

/-- Prints how a run ended. -/
def report (f : CommandLine.Finish) : IO UInt32 := do
  say f.output
  match f.failure with
  | some e => IO.eprint e.report
  | none =>
    if f.code == CommandLine.Stop.misuse.finish.code then IO.eprint CommandLine.usage
    else if f.code != 0 then IO.eprintln "the log file cannot be opened"
  pure f.code.toUInt32

/-- Puts the directory of the log on the disk, if the log has a file. -/
def lookForLog (env : Environment) (i : CommandLine.Invocation) (disk : Disk) : IO Disk :=
  match (Config.resolve disk env i.request).logFile with
  | none => pure disk
  | some path => look disk (LogFile.directory path)

/-- Carries out an invocation. -/
def run (env : Environment) (i : CommandLine.Invocation) : IO UInt32 := do
  let disk ← lookForLog env i (← (pathsOf env i).foldlM look (.empty (← here)))
  match i.run disk env (← identifiers) (← now) with
  | .ended finish after =>
    save disk after
    report finish
  | .watching directory session =>
    save disk (diskOf session)
    say (CommandLine.greeting i.quiet directory)
    let stamps ← stampsOr directory []
    attend ⟨directory, session, 0, stamps, ← IO.monoMsNow⟩ (some (← nextLine))
    pure 0

end CodeCoach.Program

def main (args : List String) : IO UInt32 := do
  let env ← CodeCoach.Program.environment
  match CodeCoach.CommandLine.Invocation.parse env args with
  | .error stop => CodeCoach.Program.report stop.finish
  | .ok i => CodeCoach.Program.run env i
