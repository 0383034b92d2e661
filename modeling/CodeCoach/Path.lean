/-!
# Paths

A path is a text whose parts are separated by slashes.  The system has it as bytes, which need not be
valid UTF-8, and the texts among the paths are strings.

* `PathUnit`, characters and bytes, of which paths are made;
* `Component`, `Path.componentsOf`: repeated slashes count once, and a single dot counts only where a
  relative path begins with it;
* `Path.joined`, a path taken from another one, and `Path.below`, the components below a base;
* `Path.render`, the text of components;
* `Path.components`, `Path.join`, `Path.isAbsolute`, for strings;
* `Path.fileName?`, `Path.suffix?`, the last part and what follows its last dot;
* `Path.parent?`, the path without its last part.
-/

namespace CodeCoach

/-- What paths are made of. -/
class PathUnit (α : Type) where
  slash : α
  dot : α
  slash_ne_dot : slash ≠ dot

instance : PathUnit Char := ⟨'/', '.', by decide⟩

instance : PathUnit UInt8 := ⟨0x2F, 0x2E, by decide⟩

/-- A part of a path. -/
inductive Component (α : Type)
  /-- The root directory. -/
  | root
  /-- A dot. -/
  | current
  /-- Two dots. -/
  | parent
  /-- A name. -/
  | normal (name : List α)
  deriving DecidableEq, Repr

namespace Path

section

open PathUnit

variable {α : Type} [DecidableEq α] [PathUnit α]

/-- The texts between the slashes of a path; there is always one more than there are slashes. -/
def pieces : List α → List (List α)
  | [] => [[]]
  | c :: rest =>
    if c == slash then [] :: pieces rest
    else
      match pieces rest with
      | [] => [[c]]
      | p :: ps => (c :: p) :: ps

/-- The component of a piece that is neither empty nor a single dot. -/
def component? (piece : List α) : Option (Component α) :=
  if piece == [] || piece == [dot] then none
  else if piece == [dot, dot] then some .parent
  else some (.normal piece)

/-- Whether a path begins at the root directory. -/
def isRooted (path : List α) : Bool := path.head? == some slash

/-- The components of a path. -/
def componentsOf (path : List α) : List (Component α) :=
  let start : List (Component α) :=
    if isRooted path then [.root]
    else if (pieces path).head? == some [dot] then [.current]
    else []
  start ++ (pieces path).filterMap component?

/-- A path with what is between it and the paths that are taken from it. -/
def asBase (base : List α) : List α :=
  if base.isEmpty then []
  else if base.getLast? == some slash then base
  else base ++ [slash]

/-- The path `other`, taken from `base` unless it begins at the root directory. -/
def joined (base other : List α) : List α := if isRooted other then other else asBase base ++ other

/-- The components of `path` below those of `base`; all of them where `base` is no ancestor. -/
def below (base path : List α) : List (Component α) :=
  let b := componentsOf base
  let p := componentsOf path
  if b.isPrefixOf p then p.drop b.length else p

end

/-- The text of components. -/
def render : List (Component Char) → List Char
  | [] => []
  | .root :: rest => '/' :: render rest
  | [.current] => ['.']
  | [.parent] => ['.', '.']
  | [.normal name] => name
  | .current :: rest => '.' :: '/' :: render rest
  | .parent :: rest => '.' :: '.' :: '/' :: render rest
  | .normal name :: rest => name ++ '/' :: render rest

/-! ### Strings -/

/-- The components of a path. -/
def components (path : String) : List (Component Char) := componentsOf path.toList

/-- The path without its last component. The root has none, nor has the empty path. -/
def parent? (path : String) : Option String :=
  match (components path).getLast? with
  | none => none
  | some .root => none
  | some _ => some (String.ofList (render (components path).dropLast))

/-- The name of the last component, if it has one. -/
def fileName? (path : String) : Option (List Char) :=
  match (components path).getLast? with
  | some (.normal name) => some name
  | _ => none

/-- A name cut at its last dot, unless that is its first character. -/
def splitName (name : List Char) : List Char × Option (List Char) :=
  let after := (name.reverse.takeWhile (· != '.')).reverse
  let before := name.take (name.length - after.length - 1)
  if before.isEmpty then (name, none) else (before, some after)

/-- What follows the last dot of the last name. -/
def suffix? (path : String) : Option (List Char) := (fileName? path).bind fun n => (splitName n).2

def isAbsolute (path : String) : Bool := isRooted path.toList

/-- The path `other`, taken from `base` unless it is absolute. -/
def join (base other : String) : String := String.ofList (joined base.toList other.toList)

end Path

end CodeCoach
