import CodeCoach.Disk
import CodeCoach.Instant.Text

/-!
# Log files

The log of a run may be kept in files, one a day.  The name of a path, with the date behind it, is
the name of the file, which lies in the directory of the path.

* `LogFile.directory`, `LogFile.name`, the two parts of a path, and `LogFile.ofDay`;
* `LogFile.prepare`, which makes the directory and says whether the run can go on.

A log file is not on the disk: nothing reads it.
-/

namespace CodeCoach.LogFile

/-- The name of the log where a path has none. -/
def defaultName : String := "codebuddy.log"

/-- The directory of the log. -/
def directory (path : String) : String := (Path.parent? path).getD "."

/-- The name of the log. -/
def name (path : String) : String :=
  match Path.fileName? path with
  | some name => String.ofList name
  | none => defaultName

/-- The file for the log of a day. -/
def ofDay (path : String) (day : Date) : String :=
  Path.join (directory path) (name path ++ "." ++ String.ofList (Instant.renderDate day))

/-- Makes the directory of the log, and says whether the run can go on. It goes on without a log
file where the directory cannot be made, but not where the file cannot be opened. -/
def prepare (disk : Disk) (path : String) (day : Date) : Bool × Disk :=
  match disk.makeDirectories (directory path) with
  | (.error _, disk) => (true, disk)
  | (.ok (), disk) => (disk.canOpen (ofDay path day), disk)

end CodeCoach.LogFile
