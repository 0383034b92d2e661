import CodeCoach.Path
import CodeCoach.Table
import CodeCoach.Text.Line

/-!
# Files and directories

A disk gives a node, a file or a directory, to some addresses.  An address is the list of the names
that lead to it from the root.

* `Disk.follow`, the address that a path leads to from the working directory, or the reason why it
  leads nowhere;
* `Disk.readText`, `Disk.write`, `Disk.replace`, `Disk.remove`, for files, and
  `Disk.makeDirectories`;
* `Disk.filesBelow`, the files of a directory and of those within;
* `FileError`, why an operation fails.
-/

namespace CodeCoach

/-- Why an operation on files fails. -/
inductive FileError
  | notFound
  | exists
  | notDirectory
  | isDirectory
  | nameTooLong
  | nulInName
  | notText
  deriving DecidableEq, Repr

def FileError.message : FileError → String
  | notFound => "No such file or directory (os error 2)"
  | .exists => "File exists (os error 17)"
  | notDirectory => "Not a directory (os error 20)"
  | isDirectory => "Is a directory (os error 21)"
  | nameTooLong => "File name too long (os error 36)"
  | nulInName => "file name contained an unexpected NUL byte"
  | notText => "stream did not contain valid UTF-8"

/-- What a file holds: a text, or bytes that are no text. -/
inductive Content
  | text (s : String)
  | bytes (bs : List UInt8)
  deriving DecidableEq, Repr

/-- The content that consists of some bytes. -/
def Content.ofBytes (bs : List UInt8) : Content :=
  match String.fromUTF8? ⟨bs.toArray⟩ with
  | some s => .text s
  | none => .bytes bs

/-- The bytes of a content. -/
def Content.toBytes : Content → List UInt8
  | text s => s.toUTF8.data.toList
  | bytes bs => bs

/-- What is at an address. -/
inductive Node
  | directory
  | file (content : Content)
  deriving DecidableEq, Repr

/-- The names that lead to a place from the root. -/
abbrev Address := List (List Char)

/-- All files and directories but the root. -/
structure Disk where
  nodes : Table Address Node
  /-- The directory from which paths are taken. -/
  workingDirectory : Address
  deriving DecidableEq, Repr

/-- Where a path leads. -/
inductive Target
  /-- To a node that is there. -/
  | present (address : Address) (node : Node)
  /-- To a place without a node in a directory that is there. -/
  | absent (address : Address)
  deriving DecidableEq, Repr

namespace Disk

/-- The most bytes of a name. -/
def longestName : Nat := 255

/-- The most bytes of a path. -/
def longestPath : Nat := 4095

/-- The addresses on the way to an address, itself included. -/
def way (address : Address) : List Address :=
  (List.range address.length).map fun i => address.take (i + 1)

/-- A disk with nothing but a working directory and the directories on the way to it. -/
def empty (workingDirectory : Address) : Disk where
  nodes := ⟨(way workingDirectory).map fun address => (address, .directory)⟩
  workingDirectory := workingDirectory

/-- The node at an address. -/
def node? (d : Disk) (address : Address) : Option Node :=
  if address.isEmpty then some .directory else d.nodes.get? address

/-- Puts a node at an address. -/
def put (d : Disk) (address : Address) (node : Node) : Disk :=
  { d with nodes := d.nodes.set address node }

/-- Clears an address. -/
def clear (d : Disk) (address : Address) : Disk := { d with nodes := d.nodes.erase address }

/-- Follows the pieces of a path from a node that is there. -/
def followFrom (d : Disk) (here : Address) (node : Node) : List (List Char) → Except FileError Target
  | [] => .ok (.present here node)
  | piece :: rest =>
    if node != .directory then .error .notDirectory
    else if piece == [] || piece == ['.'] then followFrom d here node rest
    else if piece == ['.', '.'] then followFrom d here.dropLast .directory rest
    else if longestName < Text.byteLength piece then .error .nameTooLong
    else
      match d.node? (here ++ [piece]) with
      | some next => followFrom d (here ++ [piece]) next rest
      | none => if rest.all List.isEmpty then .ok (.absent (here ++ [piece])) else .error .notFound

/-- Follows the characters of a path. -/
def followChars (d : Disk) (cs : List Char) : Except FileError Target :=
  if cs.contains '\x00' then .error .nulInName
  else if cs.isEmpty then .error .notFound
  else if longestPath < Text.byteLength cs then .error .nameTooLong
  else
    followFrom d (if Path.isRooted cs then [] else d.workingDirectory) .directory
      (Path.pieces cs)

/-- Where a path leads. -/
def follow (d : Disk) (path : String) : Except FileError Target := d.followChars path.toList

/-! ### Files -/

/-- The text of a file. -/
def readText (d : Disk) (path : String) : Except FileError String :=
  match d.follow path with
  | .error e => .error e
  | .ok (.absent _) => .error .notFound
  | .ok (.present _ .directory) => .error .isDirectory
  | .ok (.present _ (.file (.bytes _))) => .error .notText
  | .ok (.present _ (.file (.text s))) => .ok s

/-- Puts a content in the place of whatever a file holds; the file is made if it is not there. -/
def write (d : Disk) (path : String) (content : Content) : Except FileError Disk :=
  match d.follow path with
  | .error e => .error e
  | .ok (.absent address) => .ok (d.put address (.file content))
  | .ok (.present _ .directory) => .error .isDirectory
  | .ok (.present address (.file _)) => .ok (d.put address (.file content))

/-- Whether a file can be opened to be written to; it would be made if it is not there. -/
def canOpen (d : Disk) (path : String) : Bool :=
  match d.follow path with
  | .ok (.absent _) => true
  | .ok (.present _ (.file _)) => true
  | .ok (.present _ .directory) => false
  | .error _ => false

/-- Moves a file to another place; a file that is there is lost. -/
def replace (d : Disk) (source target : String) : Except FileError Disk :=
  match d.follow source, d.follow target with
  | .error e, _ => .error e
  | .ok (.absent _), _ => .error .notFound
  | .ok (.present _ .directory), _ => .error .isDirectory
  | .ok (.present _ (.file _)), .error e => .error e
  | .ok (.present _ (.file _)), .ok (.present _ .directory) => .error .isDirectory
  | .ok (.present old (.file content)), .ok (.present new (.file _)) =>
    .ok ((d.clear old).put new (.file content))
  | .ok (.present old (.file content)), .ok (.absent new) =>
    .ok ((d.clear old).put new (.file content))

/-- Removes a file, if it is one. -/
def remove (d : Disk) (path : String) : Disk :=
  match d.follow path with
  | .ok (.present address (.file _)) => d.clear address
  | _ => d

/-! ### Directories -/

/-- A path without the slashes at its end, unless it has nothing else. -/
def withoutLastSlashes (cs : List Char) : List Char :=
  let kept := (cs.reverse.dropWhile (· == '/')).reverse
  if kept.isEmpty then cs else kept

/-- Makes one directory in a directory that is there. -/
def makeDirectory (d : Disk) (cs : List Char) : Except FileError Disk :=
  match d.followChars (withoutLastSlashes cs) with
  | .error e => .error e
  | .ok (.absent address) => .ok (d.put address .directory)
  | .ok (.present _ _) => .error .exists

/-- Whether a path leads to a directory. -/
def isDirectory (d : Disk) (cs : List Char) : Bool :=
  match d.followChars cs with
  | .ok (.present _ .directory) => true
  | _ => false

/-- Makes a directory, unless the path leads to one already. -/
def ensureDirectory (d : Disk) (cs : List Char) : Except FileError Disk :=
  match d.makeDirectory cs with
  | .ok made => .ok made
  | .error e => if d.isDirectory cs then .ok d else .error e

/-- Makes the first of the given directories; where the way to it is missing, it makes the others
before, which are the parents from the nearest on. What was made stays, also after a failure. -/
def makeFrom (d : Disk) : List (List Char) → Except FileError Unit × Disk
  | [] => (.ok (), d)
  | path :: parents =>
    match d.ensureDirectory path with
    | .ok made => (.ok (), made)
    | .error .notFound =>
      match makeFrom d parents with
      | (.error e, way) => (.error e, way)
      | (.ok (), way) =>
        match way.ensureDirectory path with
        | .ok made => (.ok (), made)
        | .error e => (.error e, way)
    | .error e => (.error e, d)

/-- The paths of the parents of components, the nearest first. -/
def parents (components : List (Component Char)) : List (List Char) :=
  ((List.range components.length).reverse.drop 1).map fun i =>
    Path.render (components.take (i + 1))

/-- Makes a directory and its parents, as far as they are missing. -/
def makeDirectories (d : Disk) (path : String) : Except FileError Unit × Disk :=
  match Path.components path with
  | [] => (.ok (), d)
  | cs => d.makeFrom (path.toList :: parents cs)

/-- The path of names. -/
def renderNames (names : List (List Char)) : String :=
  String.ofList (Path.render (names.map .normal))

/-- The files below an address, with their paths from there. -/
def filesBelow (d : Disk) (top : Address) : List (String × Content) :=
  d.nodes.entries.filterMap fun (address, node) =>
    match node with
    | .file content =>
      if top.isPrefixOf address then some (renderNames (address.drop top.length), content)
      else none
    | .directory => none

end Disk

end CodeCoach
