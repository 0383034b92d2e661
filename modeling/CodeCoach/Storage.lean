import CodeCoach.Disk
import CodeCoach.Json.Parser
import CodeCoach.Json.Printer

/-!
# Storage of JSON values under keys

* `Storage`, a disk and the medium that values are kept in: memory, of which some keys may be out
  of order, or a folder of that disk with one file a key;
* `Storage.get?`, `Storage.set`; an object is stored with its fields in order;
* `Storage.setAll`, which goes on after a failure and reports the first;
* `StorageError`, why a value cannot be had or kept.
-/

namespace CodeCoach

/-- Why a value cannot be read or written. -/
inductive StorageError
  | file (key : String) (cause : FileError)
  /-- The file of the key holds no JSON. -/
  | unreadable (key : String)
  | unavailable (request : String)
  deriving DecidableEq, Repr

/-- The keys for which requests fail; a star stands for all keys. -/
structure Faults where
  reads : List String
  writes : List String
  deriving DecidableEq, Repr

namespace Faults

def none : Faults := ⟨[], []⟩

def hits (keys : List String) (key : String) : Bool := keys.contains "*" || keys.contains key

end Faults

/-- Where values are kept. -/
inductive Medium
  | memory (values : Table String Json) (faults : Faults)
  | folder (path : String)

/-- A disk and a medium. -/
structure Storage where
  disk : Disk
  medium : Medium

/-! ### Files of a folder -/

namespace Folder

/-- The file of a key. -/
def filePath (folder key : String) : String := Path.join folder (key ++ ".json")

/-- The name of a file with another suffix. A name that has a single dot before its suffix comes
down to two dots, which is the name of no file, and stays so. -/
def stagingName (name : List Char) : List Char :=
  let stem := (Path.splitName name).1
  if stem == ['.'] then ['.', '.'] else stem ++ ".json.tmp".toList

/-- The file that a value is written to before it takes the place of the file of its key. -/
def stagingPath (folder key : String) : String :=
  let path := (filePath folder key).toList
  let name := (path.reverse.takeWhile (· != '/')).reverse
  String.ofList (path.take (path.length - name.length) ++ stagingName name)

/-- The value of a key, if it has a file. -/
def get? (disk : Disk) (folder key : String) : Except StorageError (Option Json) :=
  match disk.readText (filePath folder key) with
  | .error .notFound => .ok none
  | .error e => .error (.file key e)
  | .ok text =>
    match Json.parse? text with
    | some v => .ok (some v)
    | none => .error (.unreadable key)

/-- Writes a value, by way of another file, so that the file of the key is never half written. The
disk is changed as far as the writing got. -/
def set (disk : Disk) (folder key : String) (value : Json) : Except StorageError Unit × Disk :=
  match disk.makeDirectories folder with
  | (.error e, disk) => (.error (.file key e), disk)
  | (.ok (), disk) =>
    match disk.write (stagingPath folder key) (.text value.sorted.pretty) with
    | .error e => (.error (.file key e), disk)
    | .ok disk =>
      match disk.replace (stagingPath folder key) (filePath folder key) with
      | .error e => (.error (.file key e), disk)
      | .ok disk => (.ok (), disk)

end Folder

/-! ### Values -/

namespace Storage

/-- The value of a key, if it has one. -/
def get? (s : Storage) (key : String) : Except StorageError (Option Json) :=
  match s.medium with
  | .memory values faults =>
    if Faults.hits faults.reads key then .error (.unavailable ("get " ++ key))
    else .ok (values.get? key)
  | .folder path => Folder.get? s.disk path key

/-- Keeps a value under a key. -/
def set (s : Storage) (key : String) (value : Json) : Except StorageError Unit × Storage :=
  match s.medium with
  | .memory values faults =>
    if Faults.hits faults.writes key then (.error (.unavailable ("set " ++ key)), s)
    else (.ok (), { s with medium := .memory (values.set key value.sorted) faults })
  | .folder path =>
    let (result, disk) := Folder.set s.disk path key value
    (result, { s with disk := disk })

/-- The first of two outcomes that is a failure. -/
def firstError (a b : Except StorageError Unit) : Except StorageError Unit :=
  match a with
  | .error e => .error e
  | .ok () => b

/-- Keeps values in order. A failure does not stop the others, and the first one is reported. -/
def setAll (s : Storage) : List (String × Json) → Except StorageError Unit × Storage
  | [] => (.ok (), s)
  | (key, value) :: rest =>
    let (first, s) := s.set key value
    let (others, s) := setAll s rest
    (firstError first others, s)

/-- The storage with other faults, where it has any. -/
def withFaults (s : Storage) (faults : Faults) : Storage :=
  match s.medium with
  | .memory values _ => { s with medium := .memory values faults }
  | .folder _ => s

end Storage

/-- The text of a failure. -/
def StorageError.message : StorageError → String
  | file key cause => "io error on key " ++ key ++ ": " ++ cause.message
  | unreadable key => "invalid json under key " ++ key
  | unavailable request => "store unavailable: " ++ request

/-- What is behind a failure. -/
def StorageError.causes : StorageError → List String
  | file _ cause => [cause.message]
  | unreadable _ => []
  | unavailable _ => []

end CodeCoach
