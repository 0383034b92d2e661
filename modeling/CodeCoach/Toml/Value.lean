/-!
# TOML values

* `Toml`, a value; floats and times are known by their sort only, and a table remembers how it came
  to be, which decides whether later lines may add to it;
* `Toml.Fields`, the fields of a table in the order of the document;
* `Toml.change`, a change within the table that a path of keys leads to.
-/

namespace CodeCoach

/-- How a table came to be. -/
inductive Toml.Origin
  /-- By braces; nothing can be added. -/
  | braces
  /-- By a header of its own. -/
  | header
  /-- By the header of a table within. -/
  | implied
  /-- By a key with dots. -/
  | dotted
  deriving DecidableEq, Repr

/-- A value. -/
inductive Toml
  | str (s : String)
  | int (n : Int)
  | bool (b : Bool)
  | float
  | time
  | arr (items : List Toml)
  | table (origin : Toml.Origin) (fields : List (String × Toml))
  /-- The tables of a repeated header; each is given by its fields. -/
  | tables (items : List (List (String × Toml)))
  deriving Inhabited

namespace Toml

/-- The fields of a table. -/
abbrev Fields := List (String × Toml)

/-- The value of a key. -/
def get? (fields : Fields) (key : String) : Option Toml :=
  (fields.find? fun f => f.1 == key).map Prod.snd

/-- Puts a value at a key: in the place of the value that is there, or else at the end. -/
def put (key : String) (value : Toml) : Fields → Fields
  | [] => [(key, value)]
  | (k, v) :: rest => if k == key then (key, value) :: rest else (k, v) :: put key value rest

/-- Changes the fields of the table that a path leads to. Tables that are missing on the way are
made with the given origin. A table in braces is closed, and where the path is that of a key with
dots, so is a table with a header; of the tables of a repeated header the last is entered. -/
def change (made : Origin) (f : Origin → Fields → Option Fields) :
    List String → Origin → Fields → Option Fields
  | [], origin, fields => f origin fields
  | key :: rest, _, fields =>
    match get? fields key with
    | none => (change made f rest made []).map fun inner => put key (.table made inner) fields
    | some (.table origin inner) =>
      if origin == .braces || (made == .dotted && origin == .header) then none
      else
        (change made f rest origin inner).map fun inner => put key (.table origin inner) fields
    | some (.tables items) =>
      (items.getLast?.bind (change made f rest .header)).map fun last =>
        put key (.tables (items.dropLast ++ [last])) fields
    | some _ => none

/-- Adds a field to a table that has none of its key. -/
def add (key : String) (value : Toml) (fields : Fields) : Option Fields :=
  if (get? fields key).isSome then none else some (fields ++ [(key, value)])

/-- Adds a field by its path of keys, of which all but the last are those of tables made by keys
with dots. -/
def addAt (path : List String) (key : String) (value : Toml) (origin : Origin) (fields : Fields) :
    Option Fields :=
  change .dotted (fun o inner =>
    if path.isEmpty || o == .dotted then add key value inner else none) path origin fields

/-! ### Reading values -/

def str? : Toml → Option String
  | str s => some s
  | _ => none

def bool? : Toml → Option Bool
  | bool b => some b
  | _ => none

/-- A whole number that is not negative. -/
def nat? : Toml → Option Nat
  | int n => if 0 ≤ n then some n.toNat else none
  | _ => none

/-- Whether a value is a table or an array without anything in it. -/
def isVoid : Toml → Bool
  | table _ [] => true
  | arr [] => true
  | tables [] => true
  | _ => false

/-- A variant by its name, or a table whose one field has that name and nothing in it. -/
def variant? (ofName? : String → Option α) : Toml → Option α
  | str s => ofName? s
  | table _ [(s, v)] => if v.isVoid then ofName? s else none
  | _ => none

end Toml

end CodeCoach
