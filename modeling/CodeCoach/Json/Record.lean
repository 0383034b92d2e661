import CodeCoach.Json.Value

/-!
# Reading structures from JSON

A structure is written as an object.  It is read from an object, where fields that it does not have
are ignored, or from an array of its fields in order, which may leave out trailing fields that have
a default and may hold nothing more.

* `Record`, either source, and `Json.record?`;
* `Record.required`, `Record.optional`, `Record.defaulted`, the three kinds of fields;
* readers for texts, numbers, lists and names of variants.
-/

namespace CodeCoach.Json

/-- A source of fields. -/
inductive Record
  | named (fields : List (String × Json))
  | listed (items : List Json)

/-- The fields of a structure that has `arity` of them. -/
def record? (arity : Nat) : Json → Option Record
  | obj fields => some (.named fields)
  | arr items => if items.length ≤ arity then some (.listed items) else none
  | _ => none

namespace Record

/-- The value of a field by its position or its name. -/
def value? (position : Nat) (name : String) : Record → Option Json
  | named fields => field? name fields
  | listed items => items[position]?

/-- A field that has to be there. -/
def required (r : Record) (position : Nat) (name : String) (read : Json → Option α) : Option α :=
  (r.value? position name).bind read

/-- A value that may be null. -/
def nullable (read : Json → Option α) : Json → Option (Option α)
  | null => some none
  | v => (read v).map some

/-- A field that may be null, and that an object may leave out. -/
def optional (r : Record) (position : Nat) (name : String) (read : Json → Option α) :
    Option (Option α) :=
  match r.value? position name, r with
  | some v, _ => nullable read v
  | none, named _ => some none
  | none, listed _ => none

/-- A field that has a default where it is left out. -/
def defaulted (r : Record) (position : Nat) (name : String) (dflt : α) (read : Json → Option α) :
    Option α :=
  match r.value? position name with
  | some v => read v
  | none => some dflt

end Record

/-! ### Readers -/

def str? : Json → Option String
  | str s => some s
  | _ => none

def bool? : Json → Option Bool
  | bool b => some b
  | _ => none

/-- A whole number that is not negative and below `bound`. -/
def natBelow? (bound : Nat) : Json → Option Nat
  | int n => if 0 ≤ n && n < bound then some n.toNat else none
  | _ => none

/-- A natural number of 32 bits. -/
def nat32? : Json → Option Nat := natBelow? 0x100000000

/-- A natural number of 64 bits. -/
def nat64? : Json → Option Nat := natBelow? 0x10000000000000000

/-- A float; whole numbers are converted. -/
def float? : Json → Option Float
  | float f => some f
  | int n => some (Float.ofInt n)
  | _ => none

/-- A list, all of whose items can be read. -/
def list? (read : Json → Option α) : Json → Option (List α)
  | arr items => items.mapM read
  | _ => none

/-- A variant by its name, or an object whose one field has that name and is null. Where `loose` is
set, the field may also be an empty object. -/
def variantIn? (loose : Bool) (ofName? : String → Option α) : Json → Option α
  | str s => ofName? s
  | obj [(s, null)] => ofName? s
  | obj [(s, obj [])] => if loose then ofName? s else none
  | _ => none

/-- A variant by its name, or an object whose one field has that name and is null. -/
def variant? (ofName? : String → Option α) : Json → Option α := variantIn? false ofName?

/-- A float, which is null where it is not finite. -/
def ofFloat (f : Float) : Json := if f.isFinite then float f else null

def ofNat (n : Nat) : Json := int n

end CodeCoach.Json
