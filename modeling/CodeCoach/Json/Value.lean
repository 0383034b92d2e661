import CodeCoach.Sorted

/-!
# JSON values

* `Json`, a value: whole numbers are kept apart from floats, and the fields of an object are in
  some order;
* `Json.sorted`, the value with the fields of every object in the order of their names, the last
  of several fields with one name alone;
* `Json.field?`, the value of a field.
-/

namespace CodeCoach

/-- A JSON value. -/
inductive Json
  | null
  | bool (b : Bool)
  | int (n : Int)
  | float (f : Float)
  | str (s : String)
  | arr (items : List Json)
  | obj (fields : List (String × Json))
  deriving Inhabited

namespace Json

/-- Fields in the order of their names; of several with one name the last counts. -/
def sortFields (fields : List (String × Json)) : List (String × Json) :=
  Sorted.ofList Prod.fst fields

mutual

/-- The value with the fields of all its objects in the order of their names. -/
def sorted : Json → Json
  | arr items => arr (sortedItems items)
  | obj fields => obj (sortFields (sortedFields fields))
  | other => other

/-- The items, each sorted. -/
def sortedItems : List Json → List Json
  | [] => []
  | v :: rest => v.sorted :: sortedItems rest

/-- The fields in their order, the value of each sorted. -/
def sortedFields : List (String × Json) → List (String × Json)
  | [] => []
  | (n, v) :: rest => (n, v.sorted) :: sortedFields rest

end

/-- The value of the field with a name. -/
def field? (name : String) (fields : List (String × Json)) : Option Json :=
  (fields.find? fun f => f.1 == name).map Prod.snd

/-- A text or null. -/
def ofOption (f : α → Json) : Option α → Json
  | none => null
  | some a => f a

end Json

end CodeCoach
