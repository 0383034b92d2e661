import CodeCoach.Disk
import CodeCoach.Issue
import CodeCoach.Text.Bytes
import CodeCoach.Text.Case

/-!
# Files of a workspace

* `languageOfPath`, the language tag that a file has by the suffix of its name;
* `isIgnoredPath`, which files below a root are no concern of the coach: those in hidden directories
  and in directories of tools, and hidden files;
* `load`, the document that a file holds.
-/

namespace CodeCoach.Workspace

/-- The language tags of file name suffixes. -/
def suffixTags : List (List String × String) :=
  [(["js", "mjs", "cjs"], "javascript"), (["jsx"], "javascriptreact"),
    (["ts", "mts", "cts"], "typescript"), (["tsx"], "typescriptreact"), (["py", "pyw"], "python"),
    (["html", "htm"], "html"), (["vue"], "vue"), (["svelte"], "svelte"), (["rs"], "rust"),
    (["go"], "go"), (["java"], "java"), (["rb"], "ruby"), (["md"], "markdown")]

/-- The language tag of a file; ASCII case does not matter, and other suffixes are plain text. -/
def languageOfPath (path : String) : String :=
  match Path.suffix? path with
  | none => "plaintext"
  | some suffix =>
    let plain := Text.lowerAscii (String.ofList suffix)
    ((suffixTags.find? fun entry => entry.1.contains plain).map Prod.snd).getD "plaintext"

/-- Directories that are never worth a review. -/
def ignoredNames : List String :=
  [".git", "node_modules", "target", "dist", "build", "__pycache__"]

/-- Whether a text is an ignored name or a hidden one. -/
def isIgnoredName (name : List Char) : Bool :=
  ignoredNames.contains (String.ofList name) ||
    (name.head? == some '.' && 1 < Text.byteLength name)

/-- Whether a component has an ignored or hidden name. A name that is not valid UTF-8 is neither. -/
def isIgnoredComponent : Component UInt8 → Bool
  | .normal name => (Text.ofBytes? name).any isIgnoredName
  | _ => false

/-- Whether a path is ignored in a workspace. Only the components below the root count. -/
def isIgnoredPath (root path : List UInt8) : Bool := (Path.below root path).any isIgnoredComponent

/-- Whether a path is ignored, for paths that are texts. -/
def isIgnored (root path : String) : Bool :=
  isIgnoredPath (Text.bytes root.toList) (Text.bytes path.toList)

/-- The document of a file, in the given language or else in that of its name. -/
def load (disk : Disk) (path : String) (language : Option String) :
    Except FileError Document :=
  (disk.readText path).map fun text =>
    { text, languageTag := language.getD (languageOfPath path), path }

end CodeCoach.Workspace
